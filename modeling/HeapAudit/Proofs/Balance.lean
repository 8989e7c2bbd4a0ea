import HeapAudit.Proofs.LedgerSteps
import Mathlib.Algebra.BigOperators.Group.List.Basic
import Mathlib.Algebra.Ring.Int.Defs
import Mathlib.Data.Int.Order.Basic
import Mathlib.Data.Nat.Basic

namespace HeapAudit

/-- The bytes that allocations take together. -/
def total (as : List Allocation) : Int := (as.map (·.size)).sum

@[simp] theorem total_nil : total [] = 0 := rfl

@[simp] theorem total_cons (a : Allocation) (as : List Allocation) :
    total (a :: as) = a.size + total as := by
  simp [total]

@[simp] theorem total_append (as bs : List Allocation) :
    total (as ++ bs) = total as + total bs := by
  simp [total]

theorem total_perm {as bs : List Allocation} (h : as.Perm bs) : total as = total bs :=
  (h.map _).sum_eq

theorem total_positive {as : List Allocation} (h : ∀ a ∈ as, 1 ≤ a.size) :
    (as.length : Int) ≤ total as := by
  induction as with
  | nil => simp
  | cons a as ih =>
    have ha := h a List.mem_cons_self
    have has := ih fun b hb => h b (List.mem_cons_of_mem _ hb)
    rw [total_cons, List.length_cons]
    omega

/-- No event measures less than a byte. -/
def Estimator.Positive (estimate : Estimator) : Prop :=
  ∀ language e size, estimate.size language e = .ok size → 1 ≤ size

theorem Size.estimate_positive {language : Language} {e : Event} {size : Int}
    (h : Size.estimate language e = .ok size) : 1 ≤ size := by
  dsimp only [Size.estimate] at h
  generalize hw : Size.Amount.toWhole _ = whole at h
  cases whole with
  | error why => cases h
  | ok n =>
    cases h
    exact le_max_left 1 n

theorem Estimator.standard_positive : Estimator.standard.Positive := by
  intro language e size hs
  change (Size.estimate language e).mapError Fault.unsizable = .ok size at hs
  cases hm : Size.estimate language e with
  | error why =>
    rw [hm] at hs
    cases hs
  | ok n =>
    rw [hm] at hs
    cases hs
    exact Size.estimate_positive hm

/-- A measure in whole bytes, or none at all, gives a size. -/
theorem Estimator.standard_whole {α : Type} {language : Language} {e : Event}
    (measured : Except Size.Doubt α) (bytes : α → Int)
    (h : Size.measure language e = measured.map fun n => .whole (bytes n)) :
    ∃ size, Estimator.standard.size language e = .ok size := by
  change ∃ size, (Size.estimate language e).mapError Fault.unsizable = .ok size
  unfold Size.estimate
  rw [h]
  cases measured with
  | ok n => exact ⟨_, rfl⟩
  | error d => exact ⟨_, rfl⟩

/-- In C and C++ every event has a size. -/
theorem Estimator.standard_cfamily {language : Language} (hl : language.isCFamily = true)
    (e : Event) : ∃ size, Estimator.standard.size language e = .ok size := by
  have hm : Size.measure language e = _ := if_pos hl
  exact Estimator.standard_whole _ (fun n => n) hm

/-- Written arguments have a size in every language. -/
theorem Estimator.standard_written {e : Event} {text : String} (language : Language)
    (h : e.arguments = .text text) : ∃ size, Estimator.standard.size language e = .ok size := by
  by_cases hl : language.isCFamily = true
  · exact Estimator.standard_cfamily hl e
  · refine Estimator.standard_whole (Size.leadingInteger text.toList)
      (fun n => (language.elementSize * n : Nat)) ?_
    rw [Size.measure, if_neg hl, h]
    rfl

namespace Ledger

/-- What every step keeps. The stack of a variable is looked up, so that a step on one variable
leaves the others alone by the laws of look-up. -/
structure Sound (l : Ledger) : Prop where
  keys : l.holdings.keys.Nodup
  single : ∀ var stack, l.holdings.get? var = some stack → stack.length ≤ 1
  own : ∀ var stack, l.holdings.get? var = some stack →
    ∀ a ∈ stack, a.var = var ∧ a ∈ l.allocations
  memory : l.memory = total l.holdings.live

theorem fresh_sound (language : Language) (serial : Nat) : Sound (fresh language serial) where
  keys := List.nodup_nil
  single := by simp [fresh, Holdings.get?]
  own := by simp [fresh, Holdings.get?]
  memory := rfl

theorem Sound.live_mem {l : Ledger} (h : Sound l) {a : Allocation} (ha : a ∈ l.holdings.live) :
    a ∈ l.allocations := by
  obtain ⟨var, stack, hg, hm⟩ := (Holdings.mem_live h.keys).mp ha
  exact (h.own var stack hg a hm).2

/-- A held stack is the latest allocation and nothing else. -/
theorem Sound.alone {l : Ledger} (h : Sound l) {var : String} {a : Allocation}
    {rest : List Allocation} (hg : l.holdings.get? var = some (a :: rest)) : rest = [] := by
  have hl := h.single var _ hg
  rw [List.length_cons] at hl
  exact List.length_eq_zero_iff.mp (by omega)

/-- Memory without the latest allocation of a variable. -/
theorem Sound.memory_held {l : Ledger} (h : Sound l) {var : String} {a : Allocation}
    {rest : List Allocation} (hg : l.holdings.get? var = some (a :: rest)) :
    l.memory - a.size = total (rest ++ (l.holdings.erase var).live) := by
  have hp := total_perm (Holdings.live_perm h.keys var)
  rw [hg, Option.getD_some, List.cons_append, total_cons] at hp
  rw [h.memory, hp]
  omega

theorem Sound.congr {l next : Ledger} (h : Sound l) (hh : next.holdings = l.holdings)
    (hm : next.memory = l.memory) (ha : next.allocations = l.allocations) : Sound next := by
  refine ⟨?_, ?_, ?_, ?_⟩
  · rw [hh]
    exact h.keys
  · rw [hh]
    exact h.single
  · rw [hh, ha]
    exact h.own
  · rw [hh, hm]
    exact h.memory

theorem Sound.tick {l : Ledger} (h : Sound l) : Sound l.tick := h.congr rfl rfl rfl

theorem Sound.sample {l : Ledger} (h : Sound l) (line : LineNo) : Sound (l.sample line) :=
  h.congr rfl rfl rfl

/-- A step that gives one variable another stack, and leaves those of the others. -/
theorem Sound.restack {l next : Ledger} (h : Sound l) (var : String)
    (slot : Option (List Allocation)) (hk : next.holdings.keys.Nodup)
    (hg : ∀ other, next.holdings.get? other =
      if other = var then slot else l.holdings.get? other)
    (hs : ∀ stack, slot = some stack →
      stack.length ≤ 1 ∧ ∀ a ∈ stack, a.var = var ∧ a ∈ next.allocations)
    (ha : ∀ a ∈ l.allocations, a ∈ next.allocations)
    (hl : next.holdings.live.Perm (slot.getD [] ++ (l.holdings.erase var).live))
    (hm : next.memory = total (slot.getD [] ++ (l.holdings.erase var).live)) : Sound next := by
  refine ⟨hk, ?_, ?_, hm.trans (total_perm hl).symm⟩
  · intro other stack ho
    rw [hg] at ho
    split at ho
    · exact (hs stack ho).1
    · exact h.single other stack ho
  · intro other stack ho a hm
    rw [hg] at ho
    split at ho
    · rename_i he
      rw [he]
      exact (hs stack ho).2 a hm
    · obtain ⟨hv, hin⟩ := h.own other stack ho a hm
      exact ⟨hv, ha a hin⟩

theorem Sound.evict {l : Ledger} (h : Sound l) (var : String) (line : LineNo) :
    Sound (l.evict var line) := by
  rcases vacant_or_held l var with hv | ⟨a, rest, hg⟩
  · rw [evict_vacant line hv]
    exact h
  · rw [evict_held line hg]
    have hrest := h.alone hg
    subst hrest
    apply h.restack var (some [])
    · exact Holdings.nodup_put h.keys var []
    · exact fun other => Holdings.get?_put l.holdings var other []
    · rintro stack ⟨⟩
      simp
    · exact fun b hb => hb
    · exact Holdings.live_put h.keys var []
    · exact h.memory_held hg

/-- Once a variable is evicted it holds nothing. -/
theorem Sound.vacated {l : Ledger} (h : Sound l) (var : String) (line : LineNo) :
    ((l.evict var line).holdings.get? var).getD [] = [] := by
  rcases vacant_or_held l var with hv | ⟨a, rest, hg⟩
  · rw [evict_vacant line hv]
    exact hv
  · rw [evict_held line hg]
    have hrest := h.alone hg
    subst hrest
    simp [Holdings.get?_put]

theorem Sound.enter {l : Ledger} (h : Sound l) {a : Allocation}
    (hv : (l.holdings.get? a.var).getD [] = []) : Sound (l.enter a) := by
  unfold Ledger.enter
  rw [hv]
  apply h.restack a.var (some [a])
  · exact Holdings.nodup_put h.keys a.var [a]
  · exact fun other => Holdings.get?_put l.holdings a.var other [a]
  · rintro stack ⟨⟩
    simp
  · exact fun b hb => List.mem_append_left _ hb
  · exact Holdings.live_put h.keys a.var [a]
  · have hp := total_perm (Holdings.live_perm h.keys a.var)
    rw [hv, List.nil_append] at hp
    dsimp only
    rw [h.memory, hp, Option.getD_some, List.singleton_append, total_cons]
    omega

theorem Sound.release {l : Ledger} (h : Sound l) (e : Event) : Sound (l.release e) := by
  rcases release_cases l e with ⟨kind, message, hw⟩ | ⟨a, rest, hg⟩
  · rw [hw]
    exact h.congr rfl rfl rfl
  · rw [release_held hg]
    have hrest := h.alone hg
    subst hrest
    apply h.restack e.var none
    · exact Holdings.nodup_keep h.keys e.var []
    · exact fun other => Holdings.get?_keep l.holdings e.var other []
    · rintro stack ⟨⟩
    · exact fun b hb => hb
    · exact Holdings.live_keep h.keys e.var []
    · exact h.memory_held hg

theorem Sound.turn {estimate : Estimator} {l next : Ledger} {e : Option Event} (h : Sound l)
    (t : Turn estimate l e next) : Sound next := by
  cases t with
  | idle he => exact h
  | bound hv hk hs => exact (h.evict _ _).tick.enter (h.vacated _ _)
  | refused hv hk hs => exact (h.evict _ _).tick
  | released hv hk => exact h.release _

theorem Sound.process {l : Ledger} (h : Sound l) (estimate : Estimator) (e : Option Event) :
    Sound (l.process estimate e) :=
  (h.turn (handle_turn estimate l e)).sample _

theorem Sound.finish {l : Ledger} (h : Sound l) : Sound l.finish := by
  unfold Ledger.finish
  split
  · exact h
  · exact h.congr rfl rfl rfl

theorem Sound.feed {l : Ledger} (h : Sound l) (estimate : Estimator)
    (stream : List (Option Event)) : Sound (l.feed estimate stream) :=
  feed_keeps (fun _ e hs => hs.process estimate e) h stream

/-- No allocation and no leak takes less than a byte. -/
structure Positive (l : Ledger) : Prop where
  allocations : ∀ a ∈ l.allocations, 1 ≤ a.size
  leaks : ∀ k ∈ l.leaks, 1 ≤ k.size

theorem Positive.evict {l : Ledger} (h : Positive l) (hs : Sound l) (var : String)
    (line : LineNo) : Positive (l.evict var line) := by
  rcases vacant_or_held l var with hv | ⟨a, rest, hg⟩
  · rw [evict_vacant line hv]
    exact h
  · rw [evict_held line hg]
    refine ⟨h.allocations, ?_⟩
    intro k hk
    rcases List.mem_append.mp hk with hk | hk
    · exact h.leaks k hk
    · rw [List.mem_singleton] at hk
      subst hk
      exact h.allocations a (hs.own var _ hg a List.mem_cons_self).2

theorem Positive.turn {estimate : Estimator} {l next : Ledger} {e : Option Event} (h : Positive l)
    (hs : Sound l) (he : estimate.Positive) (t : Turn estimate l e next) : Positive next := by
  cases t with
  | idle _ => exact h
  | @bound e size hv hk hsize =>
    have hev := h.evict hs e.var e.line
    refine ⟨?_, hev.leaks⟩
    intro a ha
    rcases List.mem_append.mp ha with ha | ha
    · exact hev.allocations a ha
    · rw [List.mem_singleton] at ha
      subst ha
      exact he _ _ _ hsize
  | @refused e fault hv hk hsize =>
    have hev := h.evict hs e.var e.line
    exact ⟨hev.allocations, hev.leaks⟩
  | @released e hv hk =>
    obtain ⟨-, -, -, ha, hl, -⟩ := release_frame l e
    exact ⟨ha ▸ h.allocations, hl ▸ h.leaks⟩

theorem Positive.process {estimate : Estimator} {l : Ledger} (h : Positive l) (hs : Sound l)
    (he : estimate.Positive) (e : Option Event) : Positive (l.process estimate e) := by
  have ht := h.turn hs he (handle_turn estimate l e)
  exact ⟨ht.allocations, ht.leaks⟩

theorem Positive.finish {l : Ledger} (h : Positive l) : Positive l.finish := by
  unfold Ledger.finish
  split
  · exact h
  · refine ⟨h.allocations, ?_⟩
    intro k hk
    rcases List.mem_append.mp hk with hk | hk
    · exact h.leaks k hk
    · obtain ⟨a, ha, rfl⟩ := List.mem_map.mp hk
      exact h.allocations a (List.mem_filter.mp ha).1

/-- What a ledger may be asked to do, at any time and in any order. -/
inductive Call where
  | process (e : Option Event)
  | finish

def act (estimate : Estimator) (l : Ledger) : Call → Ledger
  | .process e => l.process estimate e
  | .finish => l.finish

def replay (estimate : Estimator) (l : Ledger) (calls : List Call) : Ledger :=
  calls.foldl (act estimate) l

/-- The events among the calls. -/
def processed (calls : List Call) : List (Option Event) :=
  calls.filterMap fun
    | .process e => some e
    | .finish => none

theorem replay_append (estimate : Estimator) (l : Ledger) (xs ys : List Call) :
    replay estimate l (xs ++ ys) = replay estimate (replay estimate l xs) ys :=
  List.foldl_append

theorem replay_keeps {estimate : Estimator} {P : Ledger → Prop}
    (step : ∀ l call, P l → P (act estimate l call)) {l : Ledger} (h : P l) (calls : List Call) :
    P (replay estimate l calls) := by
  induction calls generalizing l with
  | nil => exact h
  | cons call calls ih => exact ih (step l call h)

theorem replay_sound (estimate : Estimator) (language : Language) (serial : Nat)
    (calls : List Call) : Sound (replay estimate (fresh language serial) calls) := by
  refine replay_keeps ?_ (fresh_sound language serial) calls
  intro l call h
  cases call with
  | process e => exact h.process estimate e
  | finish => exact h.finish

theorem replay_positive {estimate : Estimator} (he : estimate.Positive) (language : Language)
    (serial : Nat) (calls : List Call) :
    Positive (replay estimate (fresh language serial) calls) := by
  have hfresh : Positive (fresh language serial) := ⟨by simp [fresh], by simp [fresh]⟩
  refine (replay_keeps (P := fun l => Sound l ∧ Positive l) ?_
    ⟨fresh_sound language serial, hfresh⟩ calls).2
  rintro l call ⟨hs, hp⟩
  cases call with
  | process e => exact ⟨hs.process estimate e, hp.process hs he e⟩
  | finish => exact ⟨hs.finish, hp.finish⟩

theorem act_timeline (estimate : Estimator) (l : Ledger) (call : Call) :
    l.timeline <+: (act estimate l call).timeline ∧
      (act estimate l call).timeline.length = l.timeline.length + (processed [call]).length := by
  cases call with
  | process e =>
    change l.timeline <+: (l.process estimate e).timeline ∧ _
    rw [act, process_timeline]
    exact ⟨List.prefix_append _ _, by simp [processed]⟩
  | finish =>
    rw [act, finish_timeline]
    exact ⟨List.prefix_refl _, rfl⟩

/-- Samples are only ever added, one for each event. -/
theorem replay_timeline (estimate : Estimator) (l : Ledger) (calls : List Call) :
    l.timeline <+: (replay estimate l calls).timeline ∧
      (replay estimate l calls).timeline.length =
        l.timeline.length + (processed calls).length := by
  induction calls generalizing l with
  | nil => exact ⟨List.prefix_refl _, rfl⟩
  | cons call calls ih =>
    obtain ⟨hp, hl⟩ := act_timeline estimate l call
    obtain ⟨hps, hls⟩ := ih (act estimate l call)
    refine ⟨hp.trans hps, ?_⟩
    change (replay estimate (act estimate l call) calls).timeline.length = _
    have hsplit : processed (call :: calls) = processed [call] ++ processed calls :=
      List.filterMap_append (l := [call])
    rw [hls, hl, hsplit, List.length_append]
    omega

theorem replay_length (estimate : Estimator) (language : Language) (serial : Nat)
    (calls : List Call) :
    (replay estimate (fresh language serial) calls).timeline.length = (processed calls).length := by
  rw [(replay_timeline estimate (fresh language serial) calls).2]
  exact Nat.zero_add _

/-- The sample of an event stands where the events before it have left off. -/
theorem replay_sample (estimate : Estimator) (language : Language) (serial : Nat)
    (before after : List Call) (e : Option Event) :
    (replay estimate (fresh language serial) (before ++ .process e :: after)).timeline[
        (processed before).length]? =
      some ⟨(e.bind Event.line).getD 0,
        (replay estimate (fresh language serial) (before ++ [.process e])).memory⟩ := by
  have hlen := replay_length estimate language serial before
  have hnow : (replay estimate (fresh language serial) (before ++ [.process e])).timeline =
      (replay estimate (fresh language serial) before).timeline ++
        [⟨(e.bind Event.line).getD 0,
          (replay estimate (fresh language serial) (before ++ [.process e])).memory⟩] := by
    rw [replay_append]
    exact process_timeline estimate _ e
  obtain ⟨later, hlater⟩ := (replay_timeline estimate
    (replay estimate (fresh language serial) (before ++ [.process e])) after).1
  rw [← replay_append, List.append_assoc, List.singleton_append] at hlater
  rw [← hlater, hnow, List.append_assoc, List.getElem?_append_right hlen.le, hlen, Nat.sub_self]
  rfl

theorem feed_eq_replay (estimate : Estimator) (l : Ledger) (stream : List (Option Event)) :
    feed estimate l stream = replay estimate l (stream.map .process) := by
  rw [feed, replay, List.foldl_map]
  rfl

theorem processed_map (stream : List (Option Event)) :
    processed (stream.map .process) = stream := by
  unfold processed
  rw [List.filterMap_map]
  exact List.filterMap_some

/-- A state whose books are in order, entry by entry. -/
structure Balanced (l : Ledger) : Prop where
  single : ∀ entry ∈ l.holdings, entry.2.length ≤ 1
  own : ∀ entry ∈ l.holdings, ∀ a ∈ entry.2, a.var = entry.1 ∧ a ∈ l.allocations
  positive : (∀ a ∈ l.allocations, 1 ≤ a.size) ∧ ∀ k ∈ l.leaks, 1 ≤ k.size
  memory : l.memory = total l.holdings.live
  nonneg : 0 ≤ l.memory
  zero_iff : l.memory = 0 ↔ l.holdings.live = []

theorem Sound.balanced {l : Ledger} (h : Sound l) (hp : Positive l) : Balanced l := by
  have hlive : (l.holdings.live.length : Int) ≤ l.memory := by
    rw [h.memory]
    exact total_positive fun a ha => hp.allocations a (h.live_mem ha)
  refine ⟨?_, ?_, ⟨hp.allocations, hp.leaks⟩, h.memory, by omega, ?_⟩
  · rintro ⟨var, stack⟩ he
    exact h.single var stack ((Holdings.mem_iff_get? h.keys).mp he)
  · rintro ⟨var, stack⟩ he
    exact h.own var stack ((Holdings.mem_iff_get? h.keys).mp he)
  · constructor
    · intro hz
      exact List.length_eq_zero_iff.mp (by omega)
    · intro hn
      rw [h.memory, hn, total_nil]

/-- Whatever is asked of a ledger, its books balance, and its timeline is the history of the live
bytes: one sample for each event, taken right after it. -/
theorem replay_balanced (language : Language) (serial : Nat) (calls : List Call) :
    Balanced (replay .standard (fresh language serial) calls) ∧
    (replay .standard (fresh language serial) calls).timeline.length =
      (processed calls).length ∧
    ∀ before e after, calls = before ++ .process e :: after →
      (replay .standard (fresh language serial) calls).timeline[(processed before).length]? =
        some ⟨(e.bind Event.line).getD 0,
          total (replay .standard (fresh language serial)
            (before ++ [.process e])).holdings.live⟩ := by
  refine ⟨?_, replay_length .standard language serial calls, ?_⟩
  · exact (replay_sound .standard language serial calls).balanced
      (replay_positive Estimator.standard_positive language serial calls)
  · rintro before e after rfl
    have hm := (replay_sound .standard language serial (before ++ [.process e])).memory
    rw [replay_sample, hm]

/-- An allocation of sixteen bytes. -/
def pairOfNumbers : Event :=
  { kind := .allocation, var := "p", line := some 1, primitive := "Array",
    arguments := .values [.int 2] }

/-- An allocation without a size. -/
def endless : Event :=
  { kind := .allocation, var := "p", line := some 2, primitive := "Array",
    arguments := .values [.real (.infinite false)] }

/-- The event that fails has taken the allocation before it off the books. -/
theorem replay_balanced_after_failure :
    Balanced (replay .standard (fresh .javascript 1)
      [.process (some pairOfNumbers), .process (some endless), .finish, .process none]) ∧
    (replay .standard (fresh .javascript 1)
      [.process (some pairOfNumbers), .process (some endless), .finish,
        .process none]).timeline[1]? = some ⟨2, 0⟩ := by
  have h := replay_balanced .javascript 1
    [.process (some pairOfNumbers), .process (some endless), .finish, .process none]
  have hsample := h.2.2 [.process (some pairOfNumbers)] (some endless) [.finish, .process none] rfl
  exact ⟨h.1, hsample.trans (by decide)⟩

end Ledger

end HeapAudit
