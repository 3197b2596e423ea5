import Paniolo.HidProtocol.Typing

/-!
# What a target makes of keyboard reports

A key goes down when a report has it and the one before did not. That is what a
target reads as a keystroke; a report that only repeats a key says nothing.
-/

namespace Paniolo

namespace HidProtocol

/-- The key is pressed in a report. -/
def Key.In : Key → Report → Prop
  | .modifier bit, r => r.1 &&& bit = bit
  | .usage u, r => u ∈ r.2

/-- For every report that presses keys, its modifiers and those keys. -/
def edges : Report → List Report → List Report
  | _, [] => []
  | before, r :: rs =>
      if r.2 \ before.2 = ∅ then edges r rs else (r.1, r.2 \ before.2) :: edges r rs

variable {before r : Report} {rs : List Report}

theorem edges_cons_quiet (h : r.2 ⊆ before.2) : edges before (r :: rs) = edges r rs := by
  rw [edges, if_pos (Finset.sdiff_eq_empty_iff_subset.mpr h)]

theorem edges_cons_press (h : ¬r.2 ⊆ before.2) :
    edges before (r :: rs) = (r.1, r.2 \ before.2) :: edges r rs := by
  rw [edges, if_neg fun he => h (Finset.sdiff_eq_empty_iff_subset.mp he)]

/-- After some reports the edges are those after the last of them. -/
theorem edges_append {last : Report} (hlast : (before :: rs).getLast? = some last)
    (rs' : List Report) : edges before (rs ++ rs') = edges before rs ++ edges last rs' := by
  induction rs generalizing before with
  | nil =>
      rw [List.getLast?_singleton] at hlast
      rw [Option.some.inj hlast]
      rfl
  | cons r rs ih =>
      rw [List.getLast?_cons_cons] at hlast
      rw [List.cons_append]
      by_cases h : r.2 ⊆ before.2
      · rw [edges_cons_quiet h, edges_cons_quiet h, ih hlast]
      · rw [edges_cons_press h, edges_cons_press h, ih hlast, List.cons_append]

theorem getLast?_append {last last' : Report} {rs' : List Report}
    (hlast : (before :: rs).getLast? = some last)
    (hlast' : (last :: rs').getLast? = some last') :
    (before :: (rs ++ rs')).getLast? = some last' := by
  cases rs' with
  | nil =>
      rw [List.append_nil, hlast, ← hlast']
      rfl
  | cons r rs' =>
      rw [List.getLast?_cons_cons] at hlast'
      rw [← List.cons_append, List.getLast?_append, hlast']
      rfl

/-- A report in which no slot is empty. -/
theorem report_eq {mods : UInt8} {keys : List UInt8} (h : ∀ u ∈ keys, u ≠ 0) :
    report mods keys = (mods, keys.toFinset) := by
  have hall : keys.filter (· ≠ 0) = keys := by
    rw [List.filter_eq_self]
    exact fun u hu => decide_eq_true (h u hu)
  rw [report, hall]

end HidProtocol

end Paniolo
