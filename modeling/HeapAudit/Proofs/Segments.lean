import HeapAudit.Proofs.Lines
import HeapAudit.Statement

namespace HeapAudit.Statement
open Text

/-- Where the scan stands after a text. -/
def placeAfter (cs : Chars) : Place := cs.foldl Place.next {}

/-- The pieces of a text that is scanned from a place on. -/
def cut (p : Place) : Chars → List Chars
  | [] => [[]]
  | c :: cs =>
    if c = ';' ∧ p.atTop then [] :: cut p cs else (cut (p.next c) cs).modifyHead (c :: ·)

theorem cut_ne_nil (p : Place) (cs : Chars) : cut p cs ≠ [] := by
  induction cs generalizing p with
  | nil => exact List.cons_ne_nil _ _
  | cons c cs ih =>
    unfold cut
    split
    · exact List.cons_ne_nil _ _
    · simpa using ih (p.next c)

/-- The scan carries the piece it is in and the pieces that are done, both reversed. -/
theorem foldl_push (s : Splitting) (cs : Chars) :
    ((cs.foldl Splitting.push s).current.reverse :: (cs.foldl Splitting.push s).done).reverse =
      s.done.reverse ++ (cut s.place cs).modifyHead (s.current.reverse ++ ·) := by
  induction cs generalizing s with
  | nil => simp [cut]
  | cons c cs ih =>
    obtain ⟨here, there, hp⟩ := List.exists_cons_of_ne_nil (cut_ne_nil s.place cs)
    rw [List.foldl_cons, ih, cut, Splitting.push]
    split
    · simp [hp]
    · obtain ⟨first, rest, hc⟩ := List.exists_cons_of_ne_nil (cut_ne_nil (s.place.next c) cs)
      simp [hc]

theorem pieces_eq_cut (cs : Chars) : pieces cs = cut {} cs := by
  have h := foldl_push {} cs
  obtain ⟨first, rest, hc⟩ := List.exists_cons_of_ne_nil (cut_ne_nil {} cs)
  rw [pieces, h, hc]
  rfl

theorem segments_eq (cs : Chars) : segments cs = ((cut {} cs).map trim).filter (· ≠ []) := by
  rw [segments, pieces_eq_cut]

/-- Only characters inside quotes are escaped. -/
theorem Place.next_escaped {p : Place} (hp : p.quote = none → p.escaped = false) (c : Char) :
    (p.next c).quote = none → (p.next c).escaped = false := by
  unfold Place.next
  cases hq : p.quote with
  | none =>
    have he := hp hq
    dsimp only
    split_ifs <;> simp [he]
  | some q =>
    dsimp only
    split_ifs <;> simp_all

theorem foldl_next_escaped {p : Place} (hp : p.quote = none → p.escaped = false) (cs : Chars) :
    (cs.foldl Place.next p).quote = none → (cs.foldl Place.next p).escaped = false := by
  induction cs generalizing p with
  | nil => exact hp
  | cons c cs ih => exact ih (Place.next_escaped hp c)

/-- A scan at the top level stands where it started. -/
theorem placeAfter_atTop {cs : Chars} (h : (placeAfter cs).atTop = true) : placeAfter cs = {} := by
  have he := foldl_next_escaped (p := {}) (fun _ => rfl) cs
  change (placeAfter cs).quote = none → (placeAfter cs).escaped = false at he
  unfold Place.atTop at h
  rw [Bool.and_eq_true, Option.isNone_iff_eq_none, beq_iff_eq] at h
  generalize placeAfter cs = p at h he
  cases p
  simp_all

theorem Place.next_semicolon {p : Place} (h : p.atTop = true) : p.next ';' = p := by
  unfold Place.atTop at h
  rw [Bool.and_eq_true, Option.isNone_iff_eq_none] at h
  simp [Place.next, h.1]

/-- A semicolon at the top level parts what is before it from what is after it. -/
theorem cut_append {p : Place} {before : Chars} (h : (before.foldl Place.next p).atTop = true)
    (after : Chars) :
    cut p (before ++ ';' :: after) = cut p before ++ cut (before.foldl Place.next p) after := by
  induction before generalizing p with
  | nil =>
    have hp : p.atTop = true := h
    simp [cut, hp]
  | cons c before ih =>
    have hrest := ih (p := p.next c) h
    rw [List.cons_append, cut, cut, List.foldl_cons]
    by_cases hc : c = ';' ∧ p.atTop = true
    · have hp : p.next c = p := by
        rw [hc.1]
        exact Place.next_semicolon hc.2
      rw [hp] at hrest ⊢
      rw [if_pos hc, if_pos hc, hrest, List.cons_append]
    · obtain ⟨first, rest, hcut⟩ := List.exists_cons_of_ne_nil (cut_ne_nil (p.next c) before)
      rw [if_neg hc, if_neg hc, hrest, hcut]
      rfl

theorem segments_append {before : Chars} (h : (placeAfter before).atTop = true) (after : Chars) :
    segments (before ++ ';' :: after) = segments before ++ segments after := by
  have hc := cut_append (p := {}) h after
  change _ = _ ++ cut (placeAfter before) after at hc
  rw [segments_eq, hc, placeAfter_atTop h, List.map_append, List.filter_append, ← segments_eq,
    ← segments_eq]

/-- A blank at the start of a statement is in no segment. -/
theorem segments_blank (cs : Chars) : segments (' ' :: cs) = segments cs := by
  obtain ⟨first, rest, hc⟩ := List.exists_cons_of_ne_nil (cut_ne_nil {} cs)
  have hcut : cut {} (' ' :: cs) = (' ' :: first) :: rest := by
    change (cut {} cs).modifyHead _ = _
    rw [hc]
    rfl
  have htrim : trim (' ' :: first) = trim first := rfl
  rw [segments_eq, segments_eq, hcut, hc, List.map_cons, List.map_cons, htrim]

end HeapAudit.Statement
