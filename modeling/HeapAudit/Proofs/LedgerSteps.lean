import HeapAudit.Proofs.Holdings

namespace HeapAudit.Ledger

/-- A ledger before any event; its allocations are numbered from `serial` on. -/
def fresh (language : Language) (serial : Nat) : Ledger := { language, serial }

def feed (estimate : Estimator) (l : Ledger) (stream : List (Option Event)) : Ledger :=
  stream.foldl (process estimate) l

/-- A whole stream, and the end of the books. -/
def settle (estimate : Estimator) (language : Language) (serial : Nat)
    (stream : List (Option Event)) : Ledger :=
  (feed estimate (fresh language serial) stream).finish

theorem feed_append (estimate : Estimator) (l : Ledger) (xs ys : List (Option Event)) :
    feed estimate l (xs ++ ys) = feed estimate (feed estimate l xs) ys :=
  List.foldl_append

theorem run_eq_settle (estimate : Estimator) (language : Language) (serial : Nat)
    (events : List Event) :
    run estimate (fresh language serial) events =
      settle estimate language serial (events.map some) := by
  rw [run, settle, feed, List.foldl_map]

/-- A number is used up. -/
def tick (l : Ledger) : Ledger := { l with serial := l.serial + 1 }

theorem evict_vacant {l : Ledger} {var : String} (line : LineNo)
    (hv : (l.holdings.get? var).getD [] = []) : l.evict var line = l := by
  unfold evict
  cases hg : l.holdings.get? var with
  | none => rfl
  | some stack =>
    cases stack with
    | nil => rfl
    | cons a rest => simp [hg] at hv

theorem evict_held {l : Ledger} {var : String} {a : Allocation} {rest : List Allocation}
    (line : LineNo) (hg : l.holdings.get? var = some (a :: rest)) :
    l.evict var line =
      { l with
        holdings := l.holdings.put var rest
        memory := l.memory - a.size
        leaks := l.leaks ++
          [leakOf a .reassignment (Advice.onReassignment l.language a line)] } := by
  rw [evict, hg]

/-- Either nothing is held, or the latest allocation goes. -/
theorem vacant_or_held (l : Ledger) (var : String) :
    (l.holdings.get? var).getD [] = [] ∨ ∃ a rest, l.holdings.get? var = some (a :: rest) := by
  cases hg : l.holdings.get? var with
  | none => exact .inl rfl
  | some stack =>
    cases stack with
    | nil => exact .inl rfl
    | cons a rest => exact .inr ⟨a, rest, rfl⟩

@[simp] theorem evict_language (l : Ledger) (var : String) (line : LineNo) :
    (l.evict var line).language = l.language := by
  unfold evict
  split <;> rfl

@[simp] theorem evict_serial (l : Ledger) (var : String) (line : LineNo) :
    (l.evict var line).serial = l.serial := by
  unfold evict
  split <;> rfl

@[simp] theorem evict_allocations (l : Ledger) (var : String) (line : LineNo) :
    (l.evict var line).allocations = l.allocations := by
  unfold evict
  split <;> rfl

@[simp] theorem evict_timeline (l : Ledger) (var : String) (line : LineNo) :
    (l.evict var line).timeline = l.timeline := by
  unfold evict
  split <;> rfl

@[simp] theorem evict_finished (l : Ledger) (var : String) (line : LineNo) :
    (l.evict var line).finished = l.finished := by
  unfold evict
  split <;> rfl

/-- The remark on memory acquired one way and released the other way. -/
def mismatch? (language : Language) (a : Allocation) (e : Event) : Option Warning :=
  if Advice.mismatched a.primitive e.primitive then
    some
      { kind := .mismatchedDeallocation, line := e.line,
        message := Advice.onMismatch language a e.primitive,
        lineText := e.lineText, var := some a.var }
  else none

theorem release_missing {l : Ledger} {e : Event} (hg : l.holdings.get? e.var = none) :
    l.release e = l.warn e .potentialDoubleFree (potentialDoubleFree e.var) := by
  rw [release, hg]

theorem release_empty {l : Ledger} {e : Event} (hg : l.holdings.get? e.var = some []) :
    l.release e = l.warn e .doubleFree (doubleFree e.var) := by
  rw [release, hg]

def freeOf (a : Allocation) (e : Event) : Free :=
  { var := e.var, line := e.line, primitive := e.primitive, freed := a.id, lineText := e.lineText }

theorem release_held {l : Ledger} {e : Event} {a : Allocation} {rest : List Allocation}
    (hg : l.holdings.get? e.var = some (a :: rest)) :
    l.release e =
      { l with
        frees := l.frees ++ [freeOf a e]
        memory := l.memory - a.size
        holdings := l.holdings.keep e.var rest
        warnings := l.warnings ++ (mismatch? l.language a e).toList } := by
  rw [release, hg]
  dsimp only
  cases hm : Advice.mismatched a.primitive e.primitive with
  | false => simp [checkRelease, mismatch?, hm, freeOf, Holdings.keep]
  | true => simp [checkRelease, mismatch?, hm, freeOf, Holdings.keep]

/-- A release is remarked for holding nothing, or takes the latest allocation off. -/
theorem release_cases (l : Ledger) (e : Event) :
    (∃ kind message, l.release e = l.warn e kind message) ∨
      ∃ a rest, l.holdings.get? e.var = some (a :: rest) := by
  cases hg : l.holdings.get? e.var with
  | none => exact .inl ⟨_, _, release_missing hg⟩
  | some stack =>
    cases stack with
    | nil => exact .inl ⟨_, _, release_empty hg⟩
    | cons a rest => exact .inr ⟨a, rest, rfl⟩

/-- A release leaves alone what it does not report on. -/
theorem release_frame (l : Ledger) (e : Event) :
    (l.release e).language = l.language ∧ (l.release e).serial = l.serial ∧
      (l.release e).timeline = l.timeline ∧ (l.release e).allocations = l.allocations ∧
      (l.release e).leaks = l.leaks ∧ (l.release e).finished = l.finished := by
  rcases release_cases l e with ⟨kind, message, hw⟩ | ⟨a, rest, hg⟩
  · simp [hw, warn]
  · simp [release_held hg]

theorem allocate_sized {estimate : Estimator} {l : Ledger} {e : Event} {size : Int}
    (hs : estimate.size l.language e = .ok size) :
    l.allocate estimate e = ((l.evict e.var e.line).tick.enter (l.record e size), none) := by
  rw [← evict_language l e.var e.line] at hs
  have hr : (l.evict e.var e.line).record e size = l.record e size := by simp [record]
  unfold allocate
  simp only [hs, hr]
  rfl

theorem allocate_unsized {estimate : Estimator} {l : Ledger} {e : Event} {fault : Fault}
    (hs : estimate.size l.language e = .error fault) :
    l.allocate estimate e = ((l.evict e.var e.line).tick, some fault) := by
  rw [← evict_language l e.var e.line] at hs
  unfold allocate
  simp only [hs]
  rfl

/-- Everything an event can do, apart from its sample. -/
inductive Turn (estimate : Estimator) (l : Ledger) : Option Event → Ledger → Prop
  | idle {e : Option Event}
      (he : ∀ event, e = some event → event.var = "" ∨ event.kind = .unclassified) :
      Turn estimate l e l
  | bound {e : Event} {size : Int} (hv : e.var ≠ "") (hk : e.kind = .allocation)
      (hs : estimate.size l.language e = .ok size) :
      Turn estimate l (some e) ((l.evict e.var e.line).tick.enter (l.record e size))
  | refused {e : Event} {fault : Fault} (hv : e.var ≠ "") (hk : e.kind = .allocation)
      (hs : estimate.size l.language e = .error fault) :
      Turn estimate l (some e) (l.evict e.var e.line).tick
  | released {e : Event} (hv : e.var ≠ "") (hk : e.kind = .deallocation) :
      Turn estimate l (some e) (l.release e)

theorem handle_turn (estimate : Estimator) (l : Ledger) (e : Option Event) :
    Turn estimate l e (l.handle estimate e).1 := by
  cases e with
  | none => exact .idle (by simp)
  | some e =>
    dsimp only [handle]
    by_cases hv : e.var = ""
    · rw [if_pos hv]
      exact .idle (by simp [hv])
    · rw [if_neg hv]
      cases hk : e.kind with
      | allocation =>
        dsimp only
        cases hs : estimate.size l.language e with
        | ok size =>
          rw [allocate_sized hs]
          exact .bound hv hk hs
        | error fault =>
          rw [allocate_unsized hs]
          exact .refused hv hk hs
      | deallocation => exact .released hv hk
      | unclassified => exact .idle (by simp [hk])

theorem Turn.handle_eq {estimate : Estimator} {l next : Ledger} {e : Option Event}
    (t : Turn estimate l e next) : (l.handle estimate e).1 = next := by
  cases t with
  | idle he =>
    cases e with
    | none => rfl
    | some e =>
      rcases he e rfl with hv | hk
      · simp [handle, hv]
      · by_cases hv : e.var = ""
        · simp [handle, hv]
        · simp [handle, hv, hk]
  | bound hv hk hs => simp [handle, hv, hk, allocate_sized hs]
  | refused hv hk hs => simp [handle, hv, hk, allocate_unsized hs]
  | released hv hk => simp [handle, hv, hk]

section Process

variable {estimate : Estimator} {l : Ledger} {e : Event}

theorem process_bound {size : Int} (hv : e.var ≠ "") (hk : e.kind = .allocation)
    (hs : estimate.size l.language e = .ok size) :
    l.process estimate (some e) =
      ((l.evict e.var e.line).tick.enter (l.record e size)).sample e.line := by
  rw [process, (Turn.bound hv hk hs).handle_eq]
  rfl

/-- What was held is evicted, and no more happens. -/
theorem process_unsized {fault : Fault} (hv : e.var ≠ "") (hk : e.kind = .allocation)
    (hs : estimate.size l.language e = .error fault) :
    l.process estimate (some e) = (l.evict e.var e.line).tick.sample e.line := by
  rw [process, (Turn.refused hv hk hs).handle_eq]
  rfl

theorem process_released (hv : e.var ≠ "") (hk : e.kind = .deallocation) :
    l.process estimate (some e) = (l.release e).sample e.line := by
  rw [process, (Turn.released hv hk).handle_eq]
  rfl

end Process

/-- Only samples and the end of the books touch these. -/
theorem Turn.frame {estimate : Estimator} {l next : Ledger} {e : Option Event}
    (t : Turn estimate l e next) :
    next.language = l.language ∧ next.timeline = l.timeline ∧ next.finished = l.finished := by
  cases t with
  | idle he => exact ⟨rfl, rfl, rfl⟩
  | bound hv hk hs => exact ⟨evict_language .., evict_timeline .., evict_finished ..⟩
  | refused hv hk hs => exact ⟨evict_language .., evict_timeline .., evict_finished ..⟩
  | @released e hv hk =>
    obtain ⟨hl, -, ht, -, -, hf⟩ := release_frame l e
    exact ⟨hl, ht, hf⟩

theorem process_language (estimate : Estimator) (l : Ledger) (e : Option Event) :
    (l.process estimate e).language = l.language :=
  (handle_turn estimate l e).frame.1

theorem process_finished (estimate : Estimator) (l : Ledger) (e : Option Event) :
    (l.process estimate e).finished = l.finished :=
  (handle_turn estimate l e).frame.2.2

/-- Every event adds one sample: its line and the memory it leaves. -/
theorem process_timeline (estimate : Estimator) (l : Ledger) (e : Option Event) :
    (l.process estimate e).timeline =
      l.timeline ++ [⟨(e.bind Event.line).getD 0, (l.process estimate e).memory⟩] := by
  change (l.handle estimate e).1.timeline ++ _ = _
  rw [(handle_turn estimate l e).frame.2.1]
  rfl

/-- The last sample is of the memory in use now. -/
theorem feed_last_sample {estimate : Estimator} {language : Language} {serial : Nat}
    {stream : List (Option Event)} {s : Sample}
    (hs : (feed estimate (fresh language serial) stream).timeline.getLast? = some s) :
    s.memory = (feed estimate (fresh language serial) stream).memory := by
  rcases List.eq_nil_or_concat stream with rfl | ⟨before, e, rfl⟩
  · cases hs
  · rw [List.concat_eq_append, feed_append] at hs ⊢
    change ((feed estimate (fresh language serial) before).process estimate e).timeline.getLast? =
      some s at hs
    rw [process_timeline, List.getLast?_concat] at hs
    cases hs
    rfl

theorem finish_timeline (l : Ledger) : l.finish.timeline = l.timeline := by
  unfold finish
  split <;> rfl

/-- What every event keeps, a stream keeps. -/
theorem feed_keeps {estimate : Estimator} {P : Ledger → Prop}
    (step : ∀ l e, P l → P (l.process estimate e)) {l : Ledger} (h : P l)
    (stream : List (Option Event)) : P (l.feed estimate stream) := by
  induction stream generalizing l with
  | nil => exact h
  | cons e stream ih => exact ih (step l e h)

theorem feed_language (estimate : Estimator) (l : Ledger) (stream : List (Option Event)) :
    (l.feed estimate stream).language = l.language :=
  feed_keeps (P := fun next => next.language = l.language)
    (fun next e h => (process_language estimate next e).trans h) rfl stream

theorem feed_finished (estimate : Estimator) (l : Ledger) (stream : List (Option Event)) :
    (l.feed estimate stream).finished = l.finished :=
  feed_keeps (P := fun next => next.finished = l.finished)
    (fun next e h => (process_finished estimate next e).trans h) rfl stream

end HeapAudit.Ledger
