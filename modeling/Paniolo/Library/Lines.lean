import Mathlib.Data.List.Infix
import Mathlib.Data.List.Induction

/-!
# Lines

A file of lines read piece by piece: each piece ends with the separator,
except that the last one may be cut short by the end of the file. The lemmas
say which pieces a file of whole lines and a possibly torn tail gives, also
when only its beginning is read.
-/

namespace Paniolo

variable {α : Type*} {sep : α}

/-- Lines with their separators, one after the other. -/
def unlines (sep : α) (ls : List (List α)) : List α :=
  ls.flatMap fun l => l ++ [sep]

@[simp] theorem unlines_nil : unlines sep [] = ([] : List α) := rfl

@[simp] theorem unlines_cons (l : List α) (ls : List (List α)) :
    unlines sep (l :: ls) = l ++ [sep] ++ unlines sep ls := by
  simp [unlines]

theorem unlines_append (ls ks : List (List α)) :
    unlines sep (ls ++ ks) = unlines sep ls ++ unlines sep ks := by
  simp [unlines]

/-- A beginning of `a ++ b` ends within `a` or takes some of `b`. -/
theorem prefix_append_cases {p a b : List α} (h : p <+: a ++ b) :
    p <+: a ∨ ∃ d, d ≠ [] ∧ d <+: b ∧ p = a ++ d := by
  obtain ⟨s, hs⟩ := h
  rcases List.append_eq_append_iff.mp hs with ⟨d, ha, -⟩ | ⟨d, hp, hb⟩
  · exact Or.inl ⟨d, ha.symm⟩
  · by_cases hd : d = []
    · exact Or.inl ⟨[], by rw [hp, hd]; simp⟩
    · exact Or.inr ⟨d, hd, ⟨s, hb.symm⟩, hp⟩

variable [DecidableEq α]

/-- The results of reading up to and including `sep` until the end of the input. -/
def splitAfter (sep : α) : List α → List (List α)
  | [] => []
  | a :: as =>
      if a = sep then [a] :: splitAfter sep as
      else
        match splitAfter sep as with
        | [] => [[a]]
        | l :: ls => (a :: l) :: ls

theorem splitAfter_line {l : List α} (h : sep ∉ l) (rest : List α) :
    splitAfter sep (l ++ [sep] ++ rest) = (l ++ [sep]) :: splitAfter sep rest := by
  induction l with
  | nil => simp [splitAfter]
  | cons a l ih =>
      have ha : a ≠ sep := fun heq => h (by simp [heq])
      have hl := ih fun hmem => h (List.mem_cons_of_mem _ hmem)
      simp only [List.cons_append, splitAfter, if_neg ha]
      simp only [List.append_assoc] at hl ⊢
      rw [hl]

theorem splitAfter_torn {l : List α} (h : sep ∉ l) (hne : l ≠ []) : splitAfter sep l = [l] := by
  induction l with
  | nil => exact absurd rfl hne
  | cons a l ih =>
      have ha : a ≠ sep := fun heq => h (by simp [heq])
      simp only [splitAfter, if_neg ha]
      cases l with
      | nil => rfl
      | cons b l => rw [ih (fun hmem => h (List.mem_cons_of_mem _ hmem)) (by simp)]

/-- Whole lines, then a tail that no separator ends. -/
theorem splitAfter_unlines {ls : List (List α)} {tail : List α} (hls : ∀ l ∈ ls, sep ∉ l)
    (htail : sep ∉ tail) :
    splitAfter sep (unlines sep ls ++ tail) =
      ls.map (· ++ [sep]) ++ if tail = [] then [] else [tail] := by
  induction ls with
  | nil =>
      by_cases hnil : tail = []
      · simp [hnil, splitAfter]
      · simp [hnil, splitAfter_torn htail hnil]
  | cons l ls ih =>
      rw [unlines_cons, List.append_assoc, splitAfter_line (hls l (by simp)),
        ih fun k hk => hls k (by simp [hk])]
      rfl

/-- Writing on at the tail changes the last piece only. -/
theorem splitAfter_unlines_concat {ls : List (List α)} {tail more : List α}
    (hls : ∀ l ∈ ls, sep ∉ l) (htail : sep ∉ tail) (hne : more ≠ [])
    (hmore : sep ∉ more ∨ ∃ l, sep ∉ l ∧ more = l ++ [sep]) :
    splitAfter sep (unlines sep ls ++ (tail ++ more)) = ls.map (· ++ [sep]) ++ [tail ++ more] := by
  rcases hmore with hmore | ⟨l, hl, rfl⟩
  · have hnot : sep ∉ tail ++ more := by
      rw [List.mem_append]
      exact not_or.mpr ⟨htail, hmore⟩
    rw [splitAfter_unlines hls hnot, if_neg]
    exact fun h => hne (List.append_eq_nil_iff.mp h).2
  · have hlines : ∀ k ∈ ls ++ [tail ++ l], sep ∉ k := by
      intro k hk
      rcases List.mem_append.mp hk with hk | hk
      · exact hls k hk
      · rw [List.mem_singleton.mp hk, List.mem_append]
        exact not_or.mpr ⟨htail, hl⟩
    have hall := splitAfter_unlines hlines (List.not_mem_nil (a := sep))
    rw [unlines_append, List.append_nil] at hall
    simpa [unlines] using hall

/-- A piece of the beginning of such a file is one of its lines or begins one of them. -/
theorem mem_splitAfter_take {ls : List (List α)} {tail p : List α} (hls : ∀ l ∈ ls, sep ∉ l)
    (htail : sep ∉ tail) (n : Nat) (hp : p ∈ splitAfter sep ((unlines sep ls ++ tail).take n)) :
    (∃ l ∈ ls, p = l ++ [sep]) ∨ ∃ l ∈ ls ++ [tail], p <+: l := by
  induction ls generalizing n with
  | nil =>
      have hcut : sep ∉ tail.take n := fun hmem => htail (List.mem_of_mem_take hmem)
      by_cases hnil : tail.take n = []
      · simp [hnil, splitAfter] at hp
      · rw [unlines_nil, List.nil_append, splitAfter_torn hcut hnil, List.mem_singleton] at hp
        exact Or.inr ⟨tail, by simp, hp ▸ List.take_prefix n tail⟩
  | cons l ls ih =>
      have hl := hls l (by simp)
      rw [unlines_cons, List.append_assoc] at hp
      by_cases hn : n ≤ l.length
      · have hcut : sep ∉ l.take n := fun hmem => hl (List.mem_of_mem_take hmem)
        rw [List.append_assoc, List.take_append_of_le_length hn] at hp
        by_cases hnil : l.take n = []
        · simp [hnil, splitAfter] at hp
        · rw [splitAfter_torn hcut hnil, List.mem_singleton] at hp
          exact Or.inr ⟨l, by simp, hp ▸ List.take_prefix n l⟩
      · have hsplit : (l ++ [sep] ++ (unlines sep ls ++ tail)).take n =
            l ++ [sep] ++ (unlines sep ls ++ tail).take (n - (l.length + 1)) := by
          rw [List.take_append, List.take_of_length_le (by simp; omega)]
          simp
        rw [hsplit, splitAfter_line hl] at hp
        rcases List.mem_cons.mp hp with rfl | hp
        · exact Or.inl ⟨l, by simp, rfl⟩
        · rcases ih (fun k hk => hls k (by simp [hk])) _ hp with ⟨k, hk, hpk⟩ | ⟨k, hk, hpk⟩
          · exact Or.inl ⟨k, by simp [hk], hpk⟩
          · refine Or.inr ⟨k, ?_, hpk⟩
            simp only [List.cons_append, List.mem_cons]
            exact Or.inr hk

end Paniolo
