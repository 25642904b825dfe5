import Mathlib

/-!
# Records laid out one after another in a seekable file

A writer that dumps records in order, notes where each one ends and seeks there
after writing it leaves the records back to back. `SeekFile` is a file behind
`Write + Seek`: its bytes and its cursor. `ends start lens` are the end offsets
of records of lengths `lens` laid out from `start`; `foldl_writeAll_seek_ends`
says that writing the records, each followed by a seek to its end, appends their
concatenation, and `length_foldl_writeAll_seek_lt` bounds the file when the
seeks go elsewhere. `flatten_eq_take_append` splits a concatenation at one record,
which is where a reader that seeks to the record's start finds it.
-/

namespace FileLayout

/-- A file behind `Write + Seek`: its bytes and the position of its cursor. -/
structure SeekFile where
  bytes : List UInt8
  pos : Nat
  deriving DecidableEq, Repr

namespace SeekFile

/-- An empty file, as `truncate(true)` leaves it. -/
def empty : SeekFile := ⟨[], 0⟩

/-- `seek(SeekFrom::Start(off))`. -/
def seek (f : SeekFile) (off : Nat) : SeekFile := { f with pos := off }

/-- `write_all` at the cursor: the data overwrites what stands there, and a
cursor past the end first extends the file with zeros. -/
def writeAll (f : SeekFile) (data : List UInt8) : SeekFile where
  bytes := f.bytes.take f.pos ++ List.replicate (f.pos - f.bytes.length) 0 ++ data ++
    f.bytes.drop (f.pos + data.length)
  pos := f.pos + data.length

/-- A write with the cursor at the end of the file appends. -/
theorem writeAll_of_pos_eq {f : SeekFile} (h : f.pos = f.bytes.length) (data : List UInt8) :
    f.writeAll data = ⟨f.bytes ++ data, f.pos + data.length⟩ := by
  simp [writeAll, h]

/-- A write leaves the file as long as its old end or the end of the write,
whichever is further. -/
theorem length_writeAll (f : SeekFile) (data : List UInt8) :
    (f.writeAll data).bytes.length = max f.bytes.length (f.pos + data.length) := by
  simp only [writeAll, List.length_append, List.length_take, List.length_replicate, List.length_drop]
  omega

end SeekFile

/-- Writes of records at most `M` long, each made at a cursor below `B` and
followed by a seek below `B`, never take a file to `B + M` bytes, however far
the records were meant to reach. -/
theorem length_foldl_writeAll_seek_lt {α : Type} (data : α → List UInt8) (target : α → Nat) {B M : Nat} :
    ∀ (xs : List α) (f : SeekFile), (∀ a ∈ xs, (data a).length ≤ M ∧ target a < B) →
      f.pos < B → f.bytes.length < B + M →
      (xs.foldl (fun f a => (f.writeAll (data a)).seek (target a)) f).bytes.length < B + M
  | [], _, _, _, hlen => hlen
  | a :: xs, f, hxs, hpos, hlen => by
    obtain ⟨hdata, htarget⟩ := hxs a List.mem_cons_self
    have hwrite : ((f.writeAll (data a)).seek (target a)).bytes.length < B + M := by
      rw [SeekFile.seek, SeekFile.length_writeAll]
      omega
    exact length_foldl_writeAll_seek_lt data target xs _ (fun b hb => hxs b (List.mem_cons_of_mem a hb))
      htarget hwrite

/-- The end offsets of records of lengths `lens` laid out from `start`. -/
def ends (start : Nat) : List Nat → List Nat
  | [] => []
  | l :: lens => (start + l) :: ends (start + l) lens

@[simp] theorem length_ends (start : Nat) (lens : List Nat) : (ends start lens).length = lens.length := by
  induction lens generalizing start with
  | nil => rfl
  | cons l lens ih => simp [ends, ih]

theorem ends_append (start : Nat) (lens lens' : List Nat) :
    ends start (lens ++ lens') = ends start lens ++ ends (start + lens.sum) lens' := by
  induction lens generalizing start with
  | nil => simp [ends]
  | cons l lens ih => simp [ends, ih, Nat.add_assoc]

/-- Record `j` ends after the records up to it. -/
theorem getElem_ends {start : Nat} {lens : List Nat} {j : Nat} (hj : j < (ends start lens).length) :
    (ends start lens)[j] = start + (lens.take (j + 1)).sum := by
  induction lens generalizing start j with
  | nil => simp at hj
  | cons l lens ih =>
    cases j with
    | zero => simp [ends]
    | succ j =>
      simp only [ends, List.getElem_cons_succ, ih, List.take_succ_cons, List.sum_cons]
      omega

/-- No record ends after the last one. -/
theorem le_of_mem_ends {start : Nat} {lens : List Nat} {a : Nat} (ha : a ∈ ends start lens) :
    a ≤ start + lens.sum := by
  obtain ⟨j, hj, rfl⟩ := List.mem_iff_getElem.mp ha
  rw [getElem_ends, ← List.sum_take_add_sum_drop lens (j + 1)]
  omega

/-- Writing the records in order from the end of a file, each followed by a
seek to its end offset, appends their concatenation. -/
theorem foldl_writeAll_seek_ends : ∀ (records : List (List UInt8)) (f : SeekFile),
    f.pos = f.bytes.length →
    (records.zip (ends f.pos (records.map List.length))).foldl
        (fun f r => (f.writeAll r.1).seek r.2) f =
      ⟨f.bytes ++ records.flatten, f.pos + (records.map List.length).sum⟩
  | [], f, _ => by simp
  | r :: records, f, h => by
    have hstep : (f.writeAll r).seek (f.pos + r.length) = ⟨f.bytes ++ r, f.pos + r.length⟩ := by
      rw [SeekFile.writeAll_of_pos_eq h]
      rfl
    have hend : (f.bytes ++ r).length = f.pos + r.length := by simp [h]
    simp only [List.map_cons, ends, List.zip_cons_cons, List.foldl_cons, hstep]
    rw [foldl_writeAll_seek_ends records ⟨f.bytes ++ r, f.pos + r.length⟩ hend.symm]
    simp [Nat.add_assoc]

section Flatten

variable {α : Type}

/-- A concatenation split at part `j`: the parts before it, it, and the rest. -/
theorem flatten_eq_take_append {L : List (List α)} {j : Nat} (hj : j < L.length) :
    L.flatten = (L.take j).flatten ++ (L[j] ++ (L.drop (j + 1)).flatten) := by
  conv_lhs => rw [← List.take_append_drop j L, List.drop_eq_getElem_cons hj]
  rw [List.flatten_append, List.flatten_cons]

/-- Item `i` of part `j` sits in the concatenation after the parts before `j`. -/
theorem getElem?_flatten_take {L : List (List α)} {j i : Nat} (hj : j < L.length)
    (hi : i < L[j].length) :
    L.flatten[(L.take j).flatten.length + i]? = some L[j][i] := by
  rw [flatten_eq_take_append hj, List.getElem?_append_right (by omega), Nat.add_sub_cancel_left,
    List.getElem?_append_left hi, List.getElem?_eq_getElem hi]

end Flatten

end FileLayout
