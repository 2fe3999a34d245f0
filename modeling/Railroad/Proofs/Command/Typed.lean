/-
# Every request for a layout can be typed

Any pattern and any combination of options with values that are read can be asked for: the
options in front, each at most once, and the pattern behind `--`, so that it is not taken for an
option whatever it looks like (`request_typed`).
-/

import Mathlib.Data.List.Nodup
import Railroad.Command.Request

namespace Railroad
namespace Command

/-- Options with their values, as they are typed. -/
def valueArgs (values : List (String × String)) : List String :=
  values.flatMap fun v => ["--" ++ v.1, v.2]

/-- The command line for the layout of a pattern. -/
def layoutArgs (pattern : String) (values : List (String × String)) (debug : Bool) :
    List String :=
  "layout" :: (valueArgs values ++ ((if debug then ["--debug"] else []) ++ ["--", pattern]))

/-- The name of an option with a value is taken as such, with the value in the next argument. -/
theorem form_of_mem_valued : ∀ name ∈ layoutOptions.valued,
    layoutOptions.form ("--" ++ name) = .detached name := by
  decide +kernel

theorem form_debug : layoutOptions.form "--debug" = .flag "debug" := by decide +kernel

/-- Two dashes by themselves end the options. -/
theorem form_ends : layoutOptions.form "--" = .ends := by decide +kernel

/-- Options in front of other arguments are taken off with their values. -/
theorem split?_valueArgs {values : List (String × String)}
    (h : ∀ v ∈ values, v.1 ∈ layoutOptions.valued) (rest : List String) :
    layoutOptions.split? (valueArgs values ++ rest) =
      (layoutOptions.split? rest).map fun p => { p with values := values ++ p.values } := by
  induction values with
  | nil => exact Option.map_id'.symm
  | cons v values ih =>
      have hform := form_of_mem_valued v.1 (h v List.mem_cons_self)
      have hrest := ih fun w hw => h w (List.mem_cons_of_mem v hw)
      have hargs : valueArgs (v :: values) ++ rest =
          ("--" ++ v.1) :: v.2 :: (valueArgs values ++ rest) := by
        rw [valueArgs, List.flatMap_cons]
        rfl
      -- the name comes first and takes the argument behind it for its value
      rw [hargs, Known.split?.eq_def]
      dsimp only
      rw [hform]
      dsimp only
      rw [hrest, Option.map_map]
      rfl

/-- Behind the end of the options everything is a plain argument, so also a pattern that looks
like an option. -/
theorem split?_ends (pattern : String) :
    layoutOptions.split? ["--", pattern] = some { arguments := [pattern] } := by
  rw [Known.split?.eq_def]
  dsimp only
  rw [form_ends]

/-- The flag can stand in front of the end of the options. -/
theorem split?_debug (pattern : String) (debug : Bool) :
    layoutOptions.split? ((if debug then ["--debug"] else []) ++ ["--", pattern]) =
      some { arguments := [pattern], flags := if debug then ["debug"] else [] } := by
  cases debug with
  | false => exact split?_ends pattern
  | true =>
      show layoutOptions.split? ["--debug", "--", pattern] = _
      rw [Known.split?.eq_def]
      dsimp only
      rw [form_debug]
      dsimp only
      rw [split?_ends]
      rfl

/-- An option that is given once has the value that is given. -/
theorem value?_of_nodup {parts : Parts} (h : (parts.values.map Prod.fst).Nodup)
    {v : String × String} (hv : v ∈ parts.values) : parts.value? v.1 = some v.2 := by
  obtain ⟨w, hw⟩ : ∃ w, parts.values.reverse.find? (fun w => w.1 == v.1) = some w :=
    Option.isSome_iff_exists.1
      (List.find?_isSome.2 ⟨v, List.mem_reverse.2 hv, beq_self_eq_true v.1⟩)
  have htest : (w.1 == v.1) = true := by simpa using List.find?_some hw
  have hname : w.1 = v.1 := beq_iff_eq.1 htest
  have hmem : w ∈ parts.values := List.mem_reverse.1 (List.mem_of_find?_eq_some hw)
  have hsame : w = v := List.inj_on_of_nodup_map h hmem hv hname
  rw [Parts.value?, hw, hsame]
  rfl

/-- Options that are given once each are settled as they are given. -/
theorem settled_of_nodup {parts : Parts} (h : (parts.values.map Prod.fst).Nodup) :
    parts.settled = parts.values := by
  rw [Parts.settled]
  conv_rhs => rw [← List.map_id parts.values]
  refine List.map_congr_left fun v hv => ?_
  dsimp only
  rw [value?_of_nodup h hv]
  rfl

/-- **Every pattern can be asked for with every combination of options** whose values are read;
each option is given at most once. -/
theorem request_typed (pattern : String) {values : List (String × String)} (debug : Bool)
    {options : Options} (hnames : ∀ v ∈ values, v.1 ∈ layoutOptions.valued)
    (honce : (values.map Prod.fst).Nodup)
    (hset : values.foldlM (fun (settings : Options) v => settings.set v.1 v.2)
      { debug := debug } = Except.ok options) :
    request (layoutArgs pattern values debug) = .ok (.layout pattern options) := by
  -- the parts of the arguments: the values, the flag, and the pattern behind the dashes
  have hsplit : layoutOptions.split?
      (valueArgs values ++ ((if debug then ["--debug"] else []) ++ ["--", pattern])) =
      some ⟨[pattern], values, if debug then ["debug"] else []⟩ := by
    rw [split?_valueArgs hnames, split?_debug, Option.map_some, List.append_nil]
  have hdebug : (if debug then ["debug"] else []).contains "debug" = debug := by
    cases debug <;> rfl
  show layoutRequest _ = _
  rw [layoutRequest, hsplit, wellFormed]
  dsimp only [bind, Except.bind]
  rw [settled_of_nodup honce, hdebug]
  dsimp only
  rw [hset]
  rfl

end Command
end Railroad
