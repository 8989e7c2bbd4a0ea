import HeapAudit.Proofs.Fates
import HeapAudit.Proofs.Independence

namespace HeapAudit.Ledger
open Renumbering

/-- Numbers that are equally far from two starts. -/
def Abreast (serial serial' m n : Nat) : Prop := ∃ k, m = serial + k ∧ n = serial' + k

theorem abreast_ordered (serial serial' : Nat) : Ordered (Abreast serial serial') := by
  rintro m n m' n' ⟨k, rfl, rfl⟩ ⟨k', rfl, rfl⟩
  omega

/-- One result on either side for each element that leads to any. -/
theorem forall₂_filterMap {α β : Type} {R : β → β → Prop} {f g : α → Option β} (xs : List α)
    (h : ∀ x, Option.Rel R (f x) (g x)) : List.Forall₂ R (xs.filterMap f) (xs.filterMap g) := by
  induction xs with
  | nil => exact .nil
  | cons x xs ih =>
    have hx := h x
    rw [List.filterMap_cons, List.filterMap_cons]
    generalize f x = a at hx
    generalize g x = b at hx
    cases hx with
    | none => exact ih
    | some hab => exact .cons hab ih

theorem rel_map {α β : Type} {R : β → β → Prop} {f g : α → β} (h : ∀ a, R (f a) (g a))
    (o : Option α) : Option.Rel R (o.map f) (o.map g) := by
  cases o with
  | none => exact .none
  | some a => exact .some (h a)

section Books

variable (estimate : Estimator) (language : Language) (serial serial' : Nat)

theorem recordAt_abreast (m : Moment) :
    Renumbered Allocation.id Allocation.bare (Abreast serial serial')
      (recordAt estimate language serial m) (recordAt estimate language serial' m) := by
  obtain ⟨stem, k, hid⟩ : ∃ stem k, ∀ start,
      (recordAt estimate language start m).id = numberedId stem (start + k) := by
    refine ⟨m.event.var ++ "_line" ++ m.event.line.text,
      m.earlier.countP (·.kind = .allocation), ?_⟩
    intro start
    rw [← allocationId_eq]
    rfl
  refine ⟨⟨stem, serial + k, serial' + k, ⟨k, rfl, rfl⟩, hid serial, hid serial'⟩, ?_⟩
  simp only [Allocation.bare, recordAt, record]

theorem allocationAt_abreast (m : Moment) :
    Option.Rel (Renumbered Allocation.id Allocation.bare (Abreast serial serial'))
      (allocationAt estimate language serial m) (allocationAt estimate language serial' m) := by
  unfold allocationAt
  split
  · exact .some (recordAt_abreast estimate language serial serial' m)
  · exact .none

theorem freeAt_abreast (m : Moment) :
    Option.Rel (Renumbered Free.freed Free.bare (Abreast serial serial'))
      (freeAt estimate language serial m) (freeAt estimate language serial' m) := by
  unfold freeAt
  split
  · refine rel_map (fun p => ⟨(recordAt_abreast estimate language serial serial' p).1, ?_⟩) _
    simp only [Free.bare, freeOf]
  · exact .none

theorem evictionAt_abreast (m : Moment) :
    Option.Rel (Renumbered Leak.id Leak.bare (Abreast serial serial'))
      (evictionAt estimate language serial m) (evictionAt estimate language serial' m) := by
  unfold evictionAt
  split
  · refine rel_map (fun p => ?_) _
    have hrec := recordAt_abreast estimate language serial serial' p
    have hfix := hrec.congr (Advice.onReassignment language · m.event.line) fun _ => rfl
    dsimp only at hfix ⊢
    rw [hfix]
    exact leakOf_renumbered hrec _ _
  · exact .none

theorem unreleasedAt_abreast (events : List Event) (m : Moment) :
    Option.Rel (Renumbered Leak.id Leak.bare (Abreast serial serial'))
      (unreleasedAt estimate language serial events m)
      (unreleasedAt estimate language serial' events m) := by
  unfold unreleasedAt
  split
  · have hrec := recordAt_abreast estimate language serial serial' m
    have hfix := hrec.congr (Advice.onUnreleased language) fun _ => rfl
    dsimp only
    rw [hfix]
    exact .some (leakOf_renumbered hrec _ _)
  · exact .none

theorem warningAt_abreast (m : Moment) :
    warningAt estimate language serial m = warningAt estimate language serial' m := by
  unfold warningAt
  split
  · cases held? m.event.var m.earlier with
    | none => rfl
    | some p =>
      exact (recordAt_abreast estimate language serial serial' p).congr
        (mismatch? language · m.event) fun _ => rfl
  · rfl

/-- The memory in use does not depend on the numbers. -/
theorem feed_memory_abreast (stream : List (Option Event)) :
    (feed estimate (fresh language serial) stream).memory =
      (feed estimate (fresh language serial') stream).memory := by
  rw [feed_memory estimate language serial serial' (Finset.Subset.refl (varsOf stream)),
    ← feed_memory estimate language serial' serial' (Finset.Subset.refl (varsOf stream))]

theorem feed_timeline_abreast (stream : List (Option Event)) :
    (feed estimate (fresh language serial) stream).timeline =
      (feed estimate (fresh language serial') stream).timeline := by
  induction stream using List.reverseRecOn with
  | nil => rfl
  | append_singleton stream e ih =>
    have hmemory := feed_memory_abreast estimate language serial serial' (stream ++ [e])
    rw [feed_append, feed_append] at hmemory ⊢
    change (process estimate _ e).memory = (process estimate _ e).memory at hmemory
    change (process estimate _ e).timeline = (process estimate _ e).timeline
    rw [process_timeline, process_timeline, ih, hmemory]

/-- What a closed ledger reports on plain events, told from the stream. -/
theorem run_findings {events : List Event} (hp : ∀ e ∈ events, Plain estimate language e) :
    (run estimate (fresh language serial) events).findings =
      { allocations := (moments events).filterMap (allocationAt estimate language serial)
        frees := (moments events).filterMap (freeAt estimate language serial)
        leaks := (moments events).filterMap (evictionAt estimate language serial) ++
          (moments events).filterMap (unreleasedAt estimate language serial events)
        warnings := (moments events).filterMap (warningAt estimate language serial) } := by
  have ht : Traced estimate language serial events (after estimate language serial events) :=
    after_traced hp
  have hleaks := ht.finish_leaks (after_kept ..) (after_open ..) (after_language ..) hp
  rw [run_eq_after, findings, hleaks, finish_open (after_open ..), ← ht.allocations, ← ht.frees,
    ← ht.warnings]

/-- Plain events are reported alike, whatever number the ids start from. -/
theorem run_abreast {events : List Event} (hp : ∀ e ∈ events, Plain estimate language e) :
    (run estimate (fresh language serial) events).findings.Alike
        (run estimate (fresh language serial') events).findings ∧
      (run estimate (fresh language serial) events).timeline =
        (run estimate (fresh language serial') events).timeline := by
  refine ⟨⟨Abreast serial serial', abreast_ordered serial serial', ?_⟩, ?_⟩
  · rw [run_findings estimate language serial hp, run_findings estimate language serial' hp]
    exact
      { allocations := forall₂_filterMap _ (allocationAt_abreast estimate language serial serial')
        frees := forall₂_filterMap _ (freeAt_abreast estimate language serial serial')
        leaks := List.rel_append
          (forall₂_filterMap _ (evictionAt_abreast estimate language serial serial'))
          (forall₂_filterMap _ (unreleasedAt_abreast estimate language serial serial' events))
        warnings := List.filterMap_congr fun m _ =>
          warningAt_abreast estimate language serial serial' m }
  · rw [run_eq_settle, run_eq_settle, settle, settle, finish_timeline, finish_timeline]
    exact feed_timeline_abreast estimate language serial serial' _

end Books

end HeapAudit.Ledger
