import Mathlib.Data.List.Basic

/-!
# A fair lock for readers and writers

Any number of readers or one writer holds the lock. Writers wait in the order in
which they came, and a reader that only tries is refused as soon as a writer
holds the lock or waits for it.
-/

namespace Paniolo

structure FairLock (ι : Type) where
  readers : List ι
  writer : Option ι
  waiting : List ι
  /-- A writer holds the lock alone. -/
  alone : writer.isSome = true → readers = []
deriving DecidableEq

namespace FairLock

variable {ι : Type}

def free : FairLock ι := ⟨[], none, [], fun h => absurd h Bool.false_ne_true⟩

/-- Hold the lock as a reader, without waiting. -/
def tryRead (l : FairLock ι) (i : ι) : Option (FairLock ι) :=
  match l.writer, l.waiting with
  | none, [] => some ⟨i :: l.readers, none, [], fun h => absurd h Bool.false_ne_true⟩
  | _, _ => none

def request (l : FairLock ι) (i : ι) : FairLock ι := { l with waiting := l.waiting ++ [i] }

/-- The first writer that waits gets the lock when nobody holds it. -/
def grant (l : FairLock ι) : Option (FairLock ι) :=
  match l.readers, l.writer, l.waiting with
  | [], none, i :: rest => some ⟨[], some i, rest, fun _ => rfl⟩
  | _, _, _ => none

def endWrite (l : FairLock ι) : FairLock ι :=
  { l with writer := none, alone := fun h => absurd h Bool.false_ne_true }

section

variable [DecidableEq ι]

/-- A writer stops waiting. -/
def giveUp (l : FairLock ι) (i : ι) : FairLock ι := { l with waiting := l.waiting.erase i }

def endRead (l : FairLock ι) (i : ι) : FairLock ι where
  readers := l.readers.erase i
  writer := l.writer
  waiting := l.waiting
  alone h := by rw [l.alone h, List.erase_nil]

end

variable {l m : FairLock ι} {i : ι}

theorem tryRead_eq_some (h : l.tryRead i = some m) :
    l.writer = none ∧ l.waiting = [] ∧ m.readers = i :: l.readers ∧ m.writer = none ∧
      m.waiting = [] := by
  rw [tryRead] at h
  split at h
  · next hwriter hwaiting =>
      cases h
      exact ⟨hwriter, hwaiting, rfl, rfl, rfl⟩
  · cases h

theorem grant_eq_some (h : l.grant = some m) :
    l.readers = [] ∧ l.writer = none ∧ ∃ i, m.writer = some i ∧ l.waiting = i :: m.waiting ∧
      m.readers = [] := by
  rw [grant] at h
  split at h
  · next hreaders hwriter hwaiting =>
      cases h
      exact ⟨hreaders, hwriter, _, rfl, hwaiting, rfl⟩
  · cases h

/-- Nobody reads while somebody writes. -/
theorem not_mem_readers (hw : l.writer = some i) (j : ι) : j ∉ l.readers := by
  rw [l.alone (by rw [hw]; rfl)]
  exact List.not_mem_nil

end FairLock

end Paniolo
