import HeapAudit.Proofs.Balance

namespace HeapAudit.Ledger

/-- The allocations live on the variable of an event. -/
def heldBy (l : Ledger) (e : Option Event) : List Allocation :=
  (e.bind fun event => l.holdings.get? event.var).getD []

/-- Nothing has come of an event but its sample. -/
structure Skipped (e : Option Event) (l next : Ledger) : Prop where
  holdings : next.holdings = l.holdings
  memory : next.memory = l.memory
  allocations : next.allocations = l.allocations
  frees : next.frees = l.frees
  leaks : next.leaks = l.leaks
  warnings : next.warnings = l.warnings
  timeline : next.timeline = l.timeline ++ [⟨(e.bind Event.line).getD 0, l.memory⟩]

/-- An event can fail by not being there, or while the memory it acquires is measured. -/
theorem handle_failed {estimate : Estimator} {l : Ledger} {e : Option Event} {fault : Fault}
    (h : (l.handle estimate e).2 = some fault) :
    (e = none ∧ fault = .missing) ∨
      ∃ event, e = some event ∧ event.var ≠ "" ∧ event.kind = .allocation ∧
        estimate.size l.language event = .error fault := by
  cases e with
  | none => exact .inl ⟨rfl, (Option.some.inj h).symm⟩
  | some e =>
    dsimp only [handle] at h
    by_cases hv : e.var = ""
    · rw [if_pos hv] at h
      cases h
    · rw [if_neg hv] at h
      cases hk : e.kind with
      | allocation =>
        rw [hk] at h
        dsimp only at h
        cases hs : estimate.size l.language e with
        | ok size =>
          rw [allocate_sized hs] at h
          cases h
        | error why =>
          rw [allocate_unsized hs] at h
          cases h
          exact .inr ⟨e, rfl, hv, hk, hs⟩
      | deallocation =>
        rw [hk] at h
        cases h
      | unclassified =>
        rw [hk] at h
        cases h

theorem process_failed_vacant {estimate : Estimator} {l : Ledger} {e : Option Event}
    {fault : Fault} (h : (l.handle estimate e).2 = some fault) (hn : l.heldBy e = []) :
    Skipped e l (l.process estimate e) := by
  rcases handle_failed h with ⟨rfl, -⟩ | ⟨event, rfl, hv, hk, hs⟩
  · exact ⟨rfl, rfl, rfl, rfl, rfl, rfl, rfl⟩
  · rw [process_unsized hv hk hs, evict_vacant event.line hn]
    exact ⟨rfl, rfl, rfl, rfl, rfl, rfl, rfl⟩

/-- The books without the latest allocation of an event's variable, which is reported as lost to
the event, although nothing has taken its place. -/
def struck (l : Ledger) (e : Event) (a : Allocation) (rest : List Allocation) : Ledger :=
  { l with
    serial := l.serial + 1
    holdings := l.holdings.put e.var rest
    memory := l.memory - a.size
    leaks := l.leaks ++ [leakOf a .reassignment (Advice.onReassignment l.language a e.line)]
    timeline := l.timeline ++ [⟨e.line.getD 0, l.memory - a.size⟩] }

theorem process_failed_held {estimate : Estimator} {l : Ledger} {e : Option Event} {fault : Fault}
    {a : Allocation} {rest : List Allocation} (h : (l.handle estimate e).2 = some fault)
    (hh : l.heldBy e = a :: rest) :
    ∃ event, e = some event ∧ l.process estimate e = l.struck event a rest := by
  rcases handle_failed h with ⟨rfl, -⟩ | ⟨event, rfl, hv, hk, hs⟩
  · cases hh
  · have hg : l.holdings.get? event.var = some (a :: rest) := by
      change (l.holdings.get? event.var).getD [] = a :: rest at hh
      cases hstack : l.holdings.get? event.var with
      | none => simp [hstack] at hh
      | some stack => simpa [hstack] using hh
    refine ⟨event, rfl, ?_⟩
    rw [process_unsized hv hk hs, evict_held event.line hg]
    rfl

/-- A leak more than before. -/
theorem struck_not_skipped (e : Option Event) (l : Ledger) (event : Event) (a : Allocation)
    (rest : List Allocation) : ¬ Skipped e l (l.struck event a rest) := by
  intro h
  have hleaks := h.leaks
  simp [struck] at hleaks

/-- In every state an event that fails is skipped exactly if its variable holds nothing. Otherwise
it leaves the allocations, frees and warnings alone and adds one sample, but the latest allocation
of its variable is struck off. -/
theorem process_failed (estimate : Estimator) (l : Ledger) (e : Option Event) (fault : Fault)
    (h : (l.handle estimate e).2 = some fault) :
    (Skipped e l (l.process estimate e) ↔ l.heldBy e = []) ∧
    ∀ a rest, l.heldBy e = a :: rest →
      ∃ event, e = some event ∧ l.process estimate e = l.struck event a rest := by
  refine ⟨⟨?_, process_failed_vacant h⟩, fun a rest => process_failed_held h⟩
  intro hskip
  cases hh : l.heldBy e with
  | nil => rfl
  | cons a rest =>
    obtain ⟨event, -, hnext⟩ := process_failed_held h hh
    rw [hnext] at hskip
    exact absurd hskip (struck_not_skipped e l event a rest)

/-- Sixteen bytes are live on a variable. -/
def holdingPair : Ledger := (fresh .javascript 1).process .standard (some pairOfNumbers)

/-- Both cases: no event at all is skipped, one without a size strikes off what is held. -/
theorem process_failed_pair :
    (holdingPair.handle .standard none).2 = some .missing ∧
    Skipped none holdingPair (holdingPair.process .standard none) ∧
    (holdingPair.handle .standard (some endless)).2 = some (.unsizable .infinite) ∧
    ∃ event a, some endless = some event ∧
      holdingPair.process .standard (some endless) = holdingPair.struck event a [] := by
  have hnone : (holdingPair.handle .standard none).2 = some .missing := rfl
  have hsome : (holdingPair.handle .standard (some endless)).2 =
      some (.unsizable .infinite) := by decide
  obtain ⟨a, ha⟩ : ∃ a, holdingPair.heldBy (some endless) = [a] := ⟨_, by rfl⟩
  obtain ⟨event, he, hnext⟩ := (process_failed .standard holdingPair _ _ hsome).2 a [] ha
  exact ⟨hnone, (process_failed .standard holdingPair _ _ hnone).1.mpr rfl, hsome, event, a, he,
    hnext⟩

/-- An event that fails and is not skipped: the memory in use falls to nothing. -/
theorem endless_not_skipped :
    (holdingPair.handle .standard (some endless)).2 = some (.unsizable .infinite) ∧
      holdingPair.memory = 16 ∧ (holdingPair.process .standard (some endless)).memory = 0 ∧
      ¬ Skipped (some endless) holdingPair (holdingPair.process .standard (some endless)) := by
  refine ⟨by decide, by decide, by decide, ?_⟩
  intro h
  exact absurd h.memory (by decide)

end HeapAudit.Ledger
