import HeapAudit.Proofs.LedgerSteps
import Mathlib.Data.List.Induction

namespace HeapAudit

/-- An event of a stream with those that came before it. -/
structure Moment where
  earlier : List Event
  event : Event

def Moment.since (earlier : List Event) : List Event → List Moment
  | [] => []
  | e :: later => ⟨earlier, e⟩ :: since (earlier ++ [e]) later

/-- Every event of a stream at its moment, in the order of the stream. -/
def moments (events : List Event) : List Moment := Moment.since [] events

theorem Moment.since_append (earlier xs ys : List Event) :
    Moment.since earlier (xs ++ ys) =
      Moment.since earlier xs ++ Moment.since (earlier ++ xs) ys := by
  induction xs generalizing earlier with
  | nil => simp [Moment.since]
  | cons e xs ih => simp [Moment.since, ih]

theorem moments_concat (events : List Event) (e : Event) :
    moments (events ++ [e]) = moments events ++ [⟨events, e⟩] := by
  unfold moments
  rw [Moment.since_append]
  rfl

/-- A new event adds what it leads to after what the earlier ones led to. -/
theorem filterMap_moments_concat {α : Type} (f : Moment → Option α) (events : List Event)
    (e : Event) :
    (moments (events ++ [e])).filterMap f =
      (moments events).filterMap f ++ (f ⟨events, e⟩).toList := by
  rw [moments_concat, List.filterMap_append]
  cases hf : f ⟨events, e⟩ with
  | none => simp [hf]
  | some x => simp [hf]

theorem mem_moments {events : List Event} {m : Moment} :
    m ∈ moments events ↔ ∃ later, events = m.earlier ++ m.event :: later := by
  induction events using List.reverseRecOn with
  | nil => simp [moments, Moment.since]
  | append_singleton events e ih =>
    rw [moments_concat, List.mem_append, ih, List.mem_singleton]
    constructor
    · rintro (⟨later, rfl⟩ | rfl)
      · exact ⟨later ++ [e], by simp⟩
      · exact ⟨[], rfl⟩
    · rintro ⟨later, h⟩
      rcases List.eq_nil_or_concat later with rfl | ⟨before, last, rfl⟩
      · obtain ⟨hp, he⟩ := List.append_inj' h rfl
        cases he
        exact .inr (by cases m; simp_all)
      · rw [List.concat_eq_append, ← List.cons_append, ← List.append_assoc] at h
        obtain ⟨hp, -⟩ := List.append_inj' h rfl
        exact .inl ⟨before, hp⟩

/-- The latest event on a variable. -/
def latest? (var : String) (events : List Event) : Option Moment :=
  (moments events).reverse.find? (·.event.var = var)

theorem latest?_concat (var : String) (events : List Event) (e : Event) :
    latest? var (events ++ [e]) = if e.var = var then some ⟨events, e⟩ else latest? var events := by
  unfold latest?
  rw [moments_concat, List.reverse_append, List.reverse_singleton, List.singleton_append,
    List.find?_cons]
  by_cases hv : e.var = var
  · simp [hv]
  · simp [hv]

/-- Nothing on the variable came after it. -/
theorem latest?_of_split {var : String} {m : Moment} (hv : m.event.var = var)
    {between : List Event} (hb : ∀ e ∈ between, e.var ≠ var) :
    latest? var (m.earlier ++ m.event :: between) = some m := by
  induction between using List.reverseRecOn with
  | nil => rw [latest?_concat, if_pos hv]
  | append_singleton between e ih =>
    have he : e.var ≠ var := hb e (by simp)
    rw [← List.cons_append, ← List.append_assoc, latest?_concat, if_neg he]
    exact ih fun x hx => hb x (by simp [hx])

theorem latest?_mem {var : String} {events : List Event} {m : Moment}
    (h : latest? var events = some m) : m ∈ moments events ∧ m.event.var = var := by
  refine ⟨List.mem_reverse.mp (List.mem_of_find?_eq_some h), ?_⟩
  simpa using List.find?_some h

/-- The latest event on a variable, if it was one that acquired memory. -/
def held? (var : String) (events : List Event) : Option Moment :=
  (latest? var events).filter (·.event.kind = .allocation)

theorem held?_concat (var : String) (events : List Event) (e : Event) :
    held? var (events ++ [e]) =
      if e.var = var then (if e.kind = .allocation then some ⟨events, e⟩ else none)
      else held? var events := by
  unfold held?
  rw [latest?_concat]
  by_cases hv : e.var = var
  · by_cases hk : e.kind = .allocation
    · simp [hv, hk]
    · simp [hv, hk]
  · simp [hv]

theorem held?_mem {var : String} {events : List Event} {m : Moment}
    (h : held? var events = some m) :
    latest? var events = some m ∧ m.event.kind = .allocation := by
  obtain ⟨hl, hk⟩ := Option.filter_eq_some_iff.mp h
  exact ⟨hl, by simpa using hk⟩

namespace Moment

/-- The latest earlier event on the variable of this one. -/
def previous? (m : Moment) : Option Moment := latest? m.event.var m.earlier

/-- What came after a moment of a stream. -/
def later (m : Moment) (events : List Event) : List Event := events.drop (m.earlier.length + 1)

/-- The next event on the variable of this one. -/
def next? (m : Moment) (events : List Event) : Option Event :=
  (m.later events).find? (·.var = m.event.var)

theorem split_later {m : Moment} {events : List Event} (hm : m ∈ moments events) :
    events = m.earlier ++ m.event :: m.later events := by
  obtain ⟨after, rfl⟩ := mem_moments.mp hm
  have hlater : m.later (m.earlier ++ m.event :: after) = after := by
    rw [later, ← List.singleton_append, ← List.append_assoc]
    exact List.drop_left' (by simp)
  rw [hlater]

/-- The next event on a variable looks back on this one. -/
theorem next?_previous {m : Moment} {events : List Event} (hm : m ∈ moments events) {d : Event}
    (hd : m.next? events = some d) :
    d.var = m.event.var ∧ ∃ next ∈ moments events, next.event = d ∧ next.previous? = some m := by
  obtain ⟨hvar, between, after, hlater, hb⟩ := List.find?_eq_some_iff_append.mp hd
  have hv : d.var = m.event.var := by simpa using hvar
  refine ⟨hv, ⟨m.earlier ++ m.event :: between, d⟩, ?_, rfl, ?_⟩
  · refine mem_moments.mpr ⟨after, ?_⟩
    calc events = m.earlier ++ m.event :: m.later events := split_later hm
      _ = m.earlier ++ m.event :: between ++ d :: after := by rw [hlater]; simp
  · apply latest?_of_split hv.symm
    intro e he
    rw [hv]
    simpa using hb e he

end Moment

end HeapAudit
