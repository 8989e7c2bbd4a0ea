import HeapAudit.Proofs.Conservation
import HeapAudit.Proofs.Moments

namespace HeapAudit

theorem Advice.mem_releases {released : String} :
    released ∈ releases ↔ ∃ acquired, release? acquired = some released := by
  constructor
  · intro h
    simp only [releases, List.mem_cons, List.not_mem_nil, or_false] at h
    rcases h with rfl | rfl | rfl
    · exact ⟨"malloc", rfl⟩
    · exact ⟨"new", rfl⟩
    · exact ⟨"new[]", rfl⟩
  · rintro ⟨acquired, h⟩
    unfold release? at h
    split at h
    · cases h
      decide
    · split at h
      · cases h
        decide
      · split at h
        · cases h
          decide
        · cases h

/-- Only a release that fits some acquisition can fail to fit this one. -/
theorem Advice.mismatched_iff {acquired released : String} :
    mismatched acquired released = true ↔
      ∃ expected, release? acquired = some expected ∧
        (∃ other, release? other = some released) ∧ released ≠ expected := by
  unfold mismatched
  cases hr : release? acquired with
  | none => simp
  | some expected =>
    rw [← mem_releases]
    simp

namespace Ledger

/-- An event on a variable that acquires memory whose size is known, or releases memory. -/
def Plain (estimate : Estimator) (language : Language) (e : Event) : Prop :=
  e.var ≠ "" ∧ e.kind ≠ .unclassified ∧
    (e.kind = .allocation → ∃ size, estimate.size language e = .ok size)

theorem Plain.kind {estimate : Estimator} {language : Language} {e : Event}
    (h : Plain estimate language e) : e.kind = .allocation ∨ e.kind = .deallocation := by
  cases hk : e.kind with
  | allocation => exact .inl rfl
  | deallocation => exact .inr rfl
  | unclassified => exact absurd hk h.2.1

section Told

variable (estimate : Estimator) (language : Language) (serial : Nat)

def sizeAt (m : Moment) : Int :=
  match estimate.size language m.event with
  | .ok size => size
  | .error _ => 0

/-- The record of an event; every acquisition before it has used up a number. -/
def recordAt (m : Moment) : Allocation :=
  (fresh language (serial + m.earlier.countP (·.kind = .allocation))).record m.event
    (sizeAt estimate language m)

def allocationAt (m : Moment) : Option Allocation :=
  if m.event.kind = .allocation then some (recordAt estimate language serial m) else none

def freeAt (m : Moment) : Option Free :=
  if m.event.kind = .deallocation then
    (held? m.event.var m.earlier).map fun p => freeOf (recordAt estimate language serial p) m.event
  else none

/-- The leak of what was bound to the variable before. -/
def evictionAt (m : Moment) : Option Leak :=
  if m.event.kind = .allocation then
    (held? m.event.var m.earlier).map fun p =>
      let a := recordAt estimate language serial p
      leakOf a .reassignment (Advice.onReassignment language a m.event.line)
  else none

def warningAt (m : Moment) : Option Warning :=
  if m.event.kind = .deallocation then
    match held? m.event.var m.earlier with
    | some p => mismatch? language (recordAt estimate language serial p) m.event
    | none =>
      some
        { kind := .potentialDoubleFree, line := m.event.line,
          message := potentialDoubleFree m.event.var, lineText := m.event.lineText,
          var := some m.event.var }
  else none

def unreleasedAt (events : List Event) (m : Moment) : Option Leak :=
  if m.event.kind = .allocation ∧ m.next? events = none then
    let a := recordAt estimate language serial m
    some (leakOf a .unreleased (Advice.onUnreleased language a))
  else none

/-- The books after a stream of plain events. -/
def after (events : List Event) : Ledger :=
  feed estimate (fresh language serial) (events.map some)

/-- The books as the stream tells them, before they are closed. -/
structure Traced (events : List Event) (l : Ledger) : Prop where
  numbers : l.serial = serial + events.countP (·.kind = .allocation)
  slot : ∀ var, l.holdings.get? var =
    (held? var events).map fun p => [recordAt estimate language serial p]
  allocations : l.allocations = (moments events).filterMap (allocationAt estimate language serial)
  frees : l.frees = (moments events).filterMap (freeAt estimate language serial)
  leaks : l.leaks = (moments events).filterMap (evictionAt estimate language serial)
  warnings : l.warnings = (moments events).filterMap (warningAt estimate language serial)

theorem fresh_traced : Traced estimate language serial [] (fresh language serial) :=
  ⟨rfl, fun _ => rfl, rfl, rfl, rfl, rfl⟩

variable {estimate language serial} {events : List Event} {l : Ledger} {e : Event}

theorem Traced.record (h : Traced estimate language serial events l) {size : Int}
    (hs : estimate.size language e = .ok size) :
    l.record e size = recordAt estimate language serial ⟨events, e⟩ := by
  unfold recordAt sizeAt
  rw [hs]
  simp [Ledger.record, fresh, h.numbers]

/-- An event that acquires memory evicts what its variable holds. -/
theorem Traced.evict (h : Traced estimate language serial events l) (hl : l.language = language)
    (hk : e.kind = .allocation) :
    (l.evict e.var e.line).leaks =
        l.leaks ++ (evictionAt estimate language serial ⟨events, e⟩).toList ∧
      (l.evict e.var e.line).frees = l.frees ∧
      (l.evict e.var e.line).warnings = l.warnings ∧
      ∀ var, var ≠ e.var →
        (l.evict e.var e.line).holdings.get? var = l.holdings.get? var := by
  have hslot := h.slot e.var
  cases hh : held? e.var events with
  | none =>
    rw [hh, Option.map_none] at hslot
    rw [evict_vacant e.line (by simp [hslot])]
    simp [evictionAt, hk, hh]
  | some p =>
    rw [hh, Option.map_some] at hslot
    rw [evict_held e.line hslot]
    refine ⟨by simp [evictionAt, hk, hh, hl], rfl, rfl, ?_⟩
    intro var hv
    dsimp only
    rw [Holdings.get?_put, if_neg hv]

theorem Traced.bound (h : Traced estimate language serial events l) (hs : Sound l)
    (hl : l.language = language) (hk : e.kind = .allocation) {size : Int}
    (hsize : estimate.size language e = .ok size) :
    Traced estimate language serial (events ++ [e])
      ((l.evict e.var e.line).tick.enter (l.record e size)) := by
  obtain ⟨hleaks, hfrees, hwarnings, hother⟩ := h.evict hl hk
  have hvacated := hs.vacated e.var e.line
  rw [h.record hsize]
  refine ⟨?_, ?_, ?_, ?_, ?_, ?_⟩
  · change (l.evict e.var e.line).serial + 1 = _
    rw [evict_serial, h.numbers, List.countP_append]
    simp [hk]
    omega
  · intro var
    change ((l.evict e.var e.line).holdings.put e.var
      (_ :: ((l.evict e.var e.line).holdings.get? e.var).getD [])).get? var = _
    rw [Holdings.get?_put, hvacated, held?_concat]
    by_cases hv : var = e.var
    · simp [hv, hk]
    · rw [if_neg hv, if_neg (Ne.symm hv), hother var hv, h.slot var]
  · change (l.evict e.var e.line).allocations ++ [_] = _
    rw [evict_allocations, h.allocations, filterMap_moments_concat]
    simp [allocationAt, hk]
  · change (l.evict e.var e.line).frees = _
    rw [hfrees, h.frees, filterMap_moments_concat]
    simp [freeAt, hk]
  · change (l.evict e.var e.line).leaks = _
    rw [hleaks, h.leaks, filterMap_moments_concat]
  · change (l.evict e.var e.line).warnings = _
    rw [hwarnings, h.warnings, filterMap_moments_concat]
    simp [warningAt, hk]

/-- A release frees what its variable holds, or is remarked for holding nothing. -/
theorem Traced.release (h : Traced estimate language serial events l) (hl : l.language = language)
    (hk : e.kind = .deallocation) :
    (l.release e).frees = l.frees ++ (freeAt estimate language serial ⟨events, e⟩).toList ∧
      (l.release e).warnings =
        l.warnings ++ (warningAt estimate language serial ⟨events, e⟩).toList ∧
      ∀ var, (l.release e).holdings.get? var =
        if var = e.var then none else l.holdings.get? var := by
  have hslot := h.slot e.var
  cases hh : held? e.var events with
  | none =>
    rw [hh, Option.map_none] at hslot
    rw [release_missing hslot]
    refine ⟨by simp [freeAt, hk, hh, warn], by simp [warningAt, hk, hh, warn], ?_⟩
    intro var
    by_cases hv : var = e.var
    · rw [if_pos hv, hv]
      exact hslot
    · rw [if_neg hv]
      rfl
  | some p =>
    rw [hh, Option.map_some] at hslot
    rw [release_held hslot]
    refine ⟨by simp [freeAt, hk, hh], by simp [warningAt, hk, hh, hl], ?_⟩
    exact fun var => Holdings.get?_keep l.holdings e.var var []

theorem Traced.released (h : Traced estimate language serial events l)
    (hl : l.language = language) (hk : e.kind = .deallocation) :
    Traced estimate language serial (events ++ [e]) (l.release e) := by
  obtain ⟨hfrees, hwarnings, hslot⟩ := h.release hl hk
  obtain ⟨-, hserial, -, hallocations, hleaks, -⟩ := release_frame l e
  refine ⟨?_, ?_, ?_, ?_, ?_, ?_⟩
  · rw [hserial, h.numbers, List.countP_append]
    simp [hk]
  · intro var
    rw [hslot var, held?_concat]
    by_cases hv : var = e.var
    · simp [hv, hk]
    · rw [if_neg hv, if_neg (Ne.symm hv), h.slot var]
  · rw [hallocations, h.allocations, filterMap_moments_concat]
    simp [allocationAt, hk]
  · rw [hfrees, h.frees, filterMap_moments_concat]
  · rw [hleaks, h.leaks, filterMap_moments_concat]
    simp [evictionAt, hk]
  · rw [hwarnings, h.warnings, filterMap_moments_concat]

theorem after_concat (events : List Event) (e : Event) :
    after estimate language serial (events ++ [e]) =
      (after estimate language serial events).process estimate (some e) := by
  unfold after
  rw [List.map_append, feed_append]
  rfl

theorem after_append (before later : List Event) :
    after estimate language serial (before ++ later) =
      (after estimate language serial before).feed estimate (later.map some) := by
  unfold after
  rw [List.map_append, feed_append]

section Books

variable (estimate : Estimator) (language : Language) (serial : Nat) (events : List Event)

theorem run_eq_after :
    run estimate (fresh language serial) events = (after estimate language serial events).finish :=
  run_eq_settle estimate language serial events

theorem after_kept : Kept (after estimate language serial events) :=
  (fresh_kept language serial).feed estimate _

theorem after_language : (after estimate language serial events).language = language :=
  feed_language estimate (fresh language serial) _

theorem after_open : (after estimate language serial events).finished = false :=
  feed_finished estimate (fresh language serial) _

end Books

/-- One plain event takes the books from one telling to the next. -/
theorem Traced.process (h : Traced estimate language serial events l) (hs : Sound l)
    (hl : l.language = language) (he : Plain estimate language e) :
    Traced estimate language serial (events ++ [e]) (l.process estimate (some e)) := by
  have hnext : Traced estimate language serial (events ++ [e]) (l.handle estimate (some e)).1 := by
    obtain ⟨hv, hk, hsize⟩ := he
    have t := handle_turn estimate l (some e)
    generalize (l.handle estimate (some e)).1 = next at t
    cases t with
    | idle hi =>
      rcases hi e rfl with hi | hi
      · exact absurd hi hv
      · exact absurd hi hk
    | bound _ hk' hs' => exact h.bound hs hl hk' (hl ▸ hs')
    | refused _ hk' hs' =>
      obtain ⟨size, hok⟩ := hsize hk'
      rw [hl, hok] at hs'
      cases hs'
    | released _ hk' => exact h.released hl hk'
  exact ⟨hnext.numbers, hnext.slot, hnext.allocations, hnext.frees, hnext.leaks, hnext.warnings⟩

theorem after_traced (h : ∀ e ∈ events, Plain estimate language e) :
    Traced estimate language serial events (after estimate language serial events) := by
  induction events using List.reverseRecOn with
  | nil => exact fresh_traced estimate language serial
  | append_singleton events e ih =>
    have ht := ih fun x hx => h x (List.mem_append_left _ hx)
    rw [after_concat]
    refine ht.process ?_ (feed_language ..) (h e (by simp))
    exact (fresh_sound language serial).feed estimate _

/-- The next event frees the allocation or evicts it. -/
theorem Traced.next (h : Traced estimate language serial events l) {m : Moment}
    (hm : m ∈ moments events) (hk : m.event.kind = .allocation) {d : Event}
    (hd : m.next? events = some d) :
    (d.kind = .deallocation → freeOf (recordAt estimate language serial m) d ∈ l.frees) ∧
      (d.kind = .allocation →
        leakOf (recordAt estimate language serial m) .reassignment
          (Advice.onReassignment language (recordAt estimate language serial m) d.line) ∈
            l.leaks) := by
  obtain ⟨hv, next, hnext, rfl, hprev⟩ := Moment.next?_previous hm hd
  have hheld : held? next.event.var next.earlier = some m := by
    unfold held?
    rw [← Moment.previous?, hprev]
    simp [hk]
  refine ⟨?_, ?_⟩
  · intro hkind
    rw [h.frees, List.mem_filterMap]
    exact ⟨next, hnext, by simp [freeAt, hkind, hheld]⟩
  · intro hkind
    rw [h.leaks, List.mem_filterMap]
    exact ⟨next, hnext, by simp [evictionAt, hkind, hheld]⟩

/-- Without a next event the allocation is live. -/
theorem Traced.live (h : Traced estimate language serial events l) (hs : Sound l) {m : Moment}
    (hm : m ∈ moments events) (hk : m.event.kind = .allocation)
    (hd : m.next? events = none) : recordAt estimate language serial m ∈ l.holdings.live := by
  have hsplit := Moment.split_later hm
  have hlatest : latest? m.event.var events = some m := by
    rw [hsplit]
    apply latest?_of_split rfl
    intro e he
    simpa using List.find?_eq_none.mp hd e he
  have hheld : held? m.event.var events = some m := by
    unfold held?
    rw [hlatest]
    simp [hk]
  apply (Holdings.mem_live hs.keys).mpr
  refine ⟨m.event.var, _, (h.slot m.event.var).trans (by rw [hheld]; rfl), ?_⟩
  exact List.mem_singleton.mpr rfl

/-- What is live at the end is what no later event is about. -/
theorem Traced.mem_unreleased (h : Traced estimate language serial events l) (hk : Kept l)
    (hp : ∀ e ∈ events, Plain estimate language e) {m : Moment} (hm : m ∈ moments events)
    (ha : m.event.kind = .allocation) :
    recordAt estimate language serial m ∈ l.unreleased ↔ m.next? events = none := by
  constructor
  · intro hu
    by_contra hn
    obtain ⟨d, hd⟩ := Option.ne_none_iff_exists'.mp hn
    obtain ⟨hfree, hleak⟩ := h.next hm ha hd
    -- a freed or evicted allocation has its place already, and ids stand in one place only
    have hnodup := List.nodup_append.mp (hk.places.nodup_iff.mpr hk.numbered.distinct)
    refine hnodup.2.2 _ ?_ _ (List.mem_map.mpr ⟨_, hu, rfl⟩) rfl
    have hin : d ∈ events := by
      rw [Moment.split_later hm]
      simp [List.mem_of_find?_eq_some hd]
    rcases (hp d hin).kind with hkind | hkind
    · exact List.mem_append_right _ (List.mem_map.mpr ⟨_, hleak hkind, rfl⟩)
    · exact List.mem_append_left _ (List.mem_map.mpr ⟨_, hfree hkind, rfl⟩)
  · intro hd
    exact (hk.numbered.mem_named fun a hl => hk.sound.live_mem hl).mpr (h.live hk.sound hm ha hd)

theorem Traced.unreleased (h : Traced estimate language serial events l) (hk : Kept l)
    (hl : l.language = language) (hp : ∀ e ∈ events, Plain estimate language e) :
    (l.unreleased.map fun a => leakOf a .unreleased (Advice.onUnreleased l.language a)) =
      (moments events).filterMap (unreleasedAt estimate language serial events) := by
  have hmem : ∀ m ∈ moments events, m.event.kind = .allocation →
      ((l.holdings.live.map (·.id)).contains (recordAt estimate language serial m).id = true ↔
        m.next? events = none) := by
    intro m hm ha
    rw [← h.mem_unreleased hk hp hm ha]
    have hin : recordAt estimate language serial m ∈ l.allocations := by
      rw [h.allocations, List.mem_filterMap]
      exact ⟨m, hm, by simp [allocationAt, ha]⟩
    exact ⟨fun hc => List.mem_filter.mpr ⟨hin, hc⟩, fun hu => (List.mem_filter.mp hu).2⟩
  unfold Ledger.unreleased named
  rw [h.allocations, List.filter_filterMap, List.map_filterMap, hl]
  apply List.filterMap_congr
  intro m hm
  by_cases ha : m.event.kind = .allocation
  · have hiff := hmem m hm ha
    by_cases hd : m.next? events = none
    · have hin := hiff.mpr hd
      simp only [allocationAt, unreleasedAt, ha, hd, hin, Option.filter_some, Option.map_some,
        and_self, ↓reduceIte]
    · have hout := Bool.eq_false_iff.mpr (mt hiff.mp hd)
      simp only [allocationAt, unreleasedAt, ha, hd, hout, Option.filter_some, Option.map_none,
        and_false, Bool.false_eq_true, ↓reduceIte]
  · simp [allocationAt, unreleasedAt, ha]

/-- What a release is remarked for, by the latest earlier event on its variable. -/
theorem release_remarked {m : Moment} (hp : ∀ e ∈ m.earlier, Plain estimate language e)
    (hk : m.event.kind = .deallocation) :
    ((∃ w, warningAt estimate language serial m = some w ∧ w.kind = .potentialDoubleFree) ↔
      ∀ p, m.previous? = some p → p.event.kind = .deallocation) ∧
    ((∃ w, warningAt estimate language serial m = some w ∧ w.kind = .mismatchedDeallocation) ↔
      ∃ p, m.previous? = some p ∧ p.event.kind = .allocation ∧
        Advice.mismatched p.event.primitive m.event.primitive = true) := by
  unfold warningAt
  rw [if_pos hk]
  cases hh : held? m.event.var m.earlier with
  | none =>
    have hprev : ∀ p, m.previous? = some p → p.event.kind ≠ .allocation := by
      intro p hpre ha
      have hheld : held? m.event.var m.earlier = some p :=
        Option.filter_eq_some_iff.mpr ⟨hpre, by simpa using ha⟩
      rw [hh] at hheld
      cases hheld
    refine ⟨⟨?_, ?_⟩, ?_, ?_⟩
    · rintro - p hpre
      have hin : p.event ∈ m.earlier := by
        obtain ⟨later, he⟩ := mem_moments.mp (latest?_mem hpre).1
        rw [he]
        simp
      exact (hp p.event hin).kind.resolve_left (hprev p hpre)
    · exact fun _ => ⟨_, rfl, rfl⟩
    · rintro ⟨w, hw, hkind⟩
      cases hw
      cases hkind
    · rintro ⟨p, hpre, ha, -⟩
      exact absurd ha (hprev p hpre)
  | some p =>
    obtain ⟨hpre, ha⟩ := held?_mem hh
    change m.previous? = some p at hpre
    dsimp only
    cases hm : Advice.mismatched p.event.primitive m.event.primitive with
    | false =>
      have hnone : mismatch? language (recordAt estimate language serial p) m.event = none :=
        if_neg (by simpa [recordAt, record] using hm)
      simp [hnone, hpre, ha, hm]
    | true =>
      obtain ⟨w, hsome, hw⟩ : ∃ w, mismatch? language (recordAt estimate language serial p)
          m.event = some w ∧ w.kind = .mismatchedDeallocation :=
        ⟨_, if_pos (by simpa [recordAt, record] using hm), rfl⟩
      simp [hsome, hw, hpre, ha, hm]

variable (estimate language serial)

/-- What a closed ledger reports on a stream, told from the stream. -/
structure Told (events : List Event) (l : Ledger) : Prop where
  /-- Each list follows the stream, and the leaks of evictions come before the others. -/
  allocations : l.allocations = (moments events).filterMap (allocationAt estimate language serial)
  frees : l.frees = (moments events).filterMap (freeAt estimate language serial)
  leaks : l.leaks = (moments events).filterMap (evictionAt estimate language serial) ++
    (moments events).filterMap (unreleasedAt estimate language serial events)
  warnings : l.warnings = (moments events).filterMap (warningAt estimate language serial)
  /-- An allocation is freed by the next event on its variable, if that releases memory, -/
  freed : ∀ m ∈ moments events, m.event.kind = .allocation →
    ∀ d, m.next? events = some d → d.kind = .deallocation →
      let a := recordAt estimate language serial m
      l.frees.filter (·.freed = a.id) = [freeOf a d] ∧ l.leaks.filter (·.id = a.id) = []
  /-- is lost to it, if that acquires memory, -/
  evicted : ∀ m ∈ moments events, m.event.kind = .allocation →
    ∀ d, m.next? events = some d → d.kind = .allocation →
      let a := recordAt estimate language serial m
      l.frees.filter (·.freed = a.id) = [] ∧
        l.leaks.filter (·.id = a.id) =
          [leakOf a .reassignment (Advice.onReassignment language a d.line)]
  /-- and is left unreleased if there is none. -/
  unreleased : ∀ m ∈ moments events, m.event.kind = .allocation → m.next? events = none →
      let a := recordAt estimate language serial m
      l.frees.filter (·.freed = a.id) = [] ∧
        l.leaks.filter (·.id = a.id) = [leakOf a .unreleased (Advice.onUnreleased language a)]
  /-- A release adds at most one warning: that it follows no acquisition, or that it does not fit
  the one it follows. -/
  released : ∀ m ∈ moments events, m.event.kind = .deallocation →
    (after estimate language serial (m.earlier ++ [m.event])).warnings =
      (after estimate language serial m.earlier).warnings ++
        (warningAt estimate language serial m).toList ∧
    ((∃ w, warningAt estimate language serial m = some w ∧ w.kind = .potentialDoubleFree) ↔
      ∀ p, m.previous? = some p → p.event.kind = .deallocation) ∧
    ((∃ w, warningAt estimate language serial m = some w ∧ w.kind = .mismatchedDeallocation) ↔
      ∃ p expected, m.previous? = some p ∧ p.event.kind = .allocation ∧
        Advice.release? p.event.primitive = some expected ∧
        (∃ acquired, Advice.release? acquired = some m.event.primitive) ∧
        m.event.primitive ≠ expected)
  noDoubleFree : ∀ w ∈ l.warnings, w.kind ≠ .doubleFree

variable {estimate language serial}

theorem warningAt_kind {m : Moment} {w : Warning}
    (hw : warningAt estimate language serial m = some w) : w.kind ≠ .doubleFree := by
  unfold warningAt at hw
  split at hw
  · split at hw
    · unfold mismatch? at hw
      split at hw
      · cases hw
        simp
      · cases hw
    · cases hw
      simp
  · cases hw

theorem Traced.finish_leaks (h : Traced estimate language serial events l) (hk : Kept l)
    (hf : l.finished = false) (hl : l.language = language)
    (hp : ∀ e ∈ events, Plain estimate language e) :
    l.finish.leaks = (moments events).filterMap (evictionAt estimate language serial) ++
      (moments events).filterMap (unreleasedAt estimate language serial events) := by
  rw [finish_open hf, ← h.leaks, ← h.unreleased hk hl hp]

/-- What a release adds to the warnings, and when. -/
theorem after_release (hp : ∀ e ∈ events, Plain estimate language e) {m : Moment}
    (hm : m ∈ moments events) (hk : m.event.kind = .deallocation) :
    (after estimate language serial (m.earlier ++ [m.event])).warnings =
      (after estimate language serial m.earlier).warnings ++
        (warningAt estimate language serial m).toList ∧
    ((∃ w, warningAt estimate language serial m = some w ∧ w.kind = .potentialDoubleFree) ↔
      ∀ p, m.previous? = some p → p.event.kind = .deallocation) ∧
    ((∃ w, warningAt estimate language serial m = some w ∧ w.kind = .mismatchedDeallocation) ↔
      ∃ p expected, m.previous? = some p ∧ p.event.kind = .allocation ∧
        Advice.release? p.event.primitive = some expected ∧
        (∃ acquired, Advice.release? acquired = some m.event.primitive) ∧
        m.event.primitive ≠ expected) := by
  have hnow : ∀ e ∈ m.earlier ++ [m.event], Plain estimate language e := by
    intro e he
    apply hp e
    rw [Moment.split_later hm, ← List.singleton_append, ← List.append_assoc]
    exact List.mem_append_left _ he
  have hearlier : ∀ e ∈ m.earlier, Plain estimate language e :=
    fun e he => hnow e (List.mem_append_left _ he)
  obtain ⟨hstray, hmismatch⟩ := release_remarked hearlier hk
  refine ⟨?_, hstray, hmismatch.trans ?_⟩
  · rw [(after_traced hnow).warnings, (after_traced hearlier).warnings, filterMap_moments_concat]
  · simp only [Advice.mismatched_iff]
    constructor
    · rintro ⟨p, hpre, ha, expected, hfits⟩
      exact ⟨p, expected, hpre, ha, hfits⟩
    · rintro ⟨p, expected, hpre, ha, hfits⟩
      exact ⟨p, hpre, ha, expected, hfits⟩

/-- A stream of plain events leads to what the stream tells: the next event on its variable decides
how an allocation ends, and the latest earlier one decides what a release is remarked for. -/
theorem run_told (estimate : Estimator) (language : Language) (serial : Nat) (events : List Event)
    (h : ∀ e ∈ events, Plain estimate language e) :
    Told estimate language serial events (run estimate (fresh language serial) events) := by
  have ht : Traced estimate language serial events (after estimate language serial events) :=
    after_traced h
  have hk : Kept (after estimate language serial events) :=
    (fresh_kept language serial).feed estimate _
  have hf : (after estimate language serial events).finished = false := feed_finished ..
  have hleaks := ht.finish_leaks hk hf (feed_language ..) h
  rw [run_eq_settle]
  change Told estimate language serial events (after estimate language serial events).finish
  generalize after estimate language serial events = l at ht hk hf hleaks
  -- every id stands once among the frees and leaks, so one entry for an allocation is the only one
  have hnodup := (hk.finish_ids hf).nodup_iff.mpr hk.numbered.distinct
  have hnodup' := List.nodup_append_comm.mp hnodup
  have hfrees : l.finish.frees = l.frees := by rw [finish_open hf]
  have hwarnings : l.finish.warnings = l.warnings := by rw [finish_open hf]
  refine ⟨?_, hfrees.trans ht.frees, hleaks, hwarnings.trans ht.warnings, ?_, ?_, ?_,
    fun m => after_release h, ?_⟩
  · rw [finish_open hf]
    exact ht.allocations
  · intro m hm ha d hd hkind
    have hin := (ht.next hm ha hd).1 hkind
    rw [← hfrees] at hin
    exact filter_key hnodup hin
  · intro m hm ha d hd hkind
    have hin := (ht.next hm ha hd).2 hkind
    have hin' := List.mem_append_left
      ((moments events).filterMap (unreleasedAt estimate language serial events)) hin
    rw [ht.leaks, ← hleaks] at hin'
    exact (filter_key hnodup' hin').symm
  · intro m hm ha hd
    have hin : leakOf (recordAt estimate language serial m) .unreleased
        (Advice.onUnreleased language (recordAt estimate language serial m)) ∈
          l.finish.leaks := by
      rw [hleaks]
      exact List.mem_append_right _ (List.mem_filterMap.mpr ⟨m, hm, if_pos ⟨ha, hd⟩⟩)
    exact (filter_key hnodup' hin).symm
  · intro w hw
    rw [hwarnings, ht.warnings] at hw
    obtain ⟨m, -, hm⟩ := List.mem_filterMap.mp hw
    exact warningAt_kind hm

/-- Two variables by turns: `p` is released the wrong way and then once more, `q` is bound twice. -/
def crossed : List Event :=
  [{ kind := .allocation, var := "p", line := some 1, primitive := "malloc",
      arguments := .text "8" },
    { kind := .allocation, var := "q", line := some 2, primitive := "new" },
    { kind := .deallocation, var := "p", line := some 3, primitive := "delete" },
    { kind := .allocation, var := "q", line := some 4, primitive := "new" },
    { kind := .deallocation, var := "p", line := some 5, primitive := "free" }]

theorem run_told_crossed :
    (∀ e ∈ crossed, Plain .standard .cpp e) ∧
      Told .standard .cpp 1 crossed (run .standard (fresh .cpp 1) crossed) ∧
      (run .standard (fresh .cpp 1) crossed).warnings.map (·.kind) =
        [.mismatchedDeallocation, .potentialDoubleFree] ∧
      (run .standard (fresh .cpp 1) crossed).leaks.map (·.kind) = [.reassignment, .unreleased] := by
  have hplain : ∀ e ∈ crossed, Plain .standard .cpp e := by
    simp only [crossed, List.forall_mem_cons]
    refine ⟨⟨by decide, by decide, fun _ => ⟨8, by decide⟩⟩,
      ⟨by decide, by decide, fun _ => ⟨4, by decide⟩⟩, ⟨by decide, by decide, by simp⟩,
      ⟨by decide, by decide, fun _ => ⟨4, by decide⟩⟩, ⟨by decide, by decide, by simp⟩, by simp⟩
  exact ⟨hplain, run_told .standard .cpp 1 crossed hplain, by decide, by decide⟩

end Told

end Ledger

end HeapAudit
