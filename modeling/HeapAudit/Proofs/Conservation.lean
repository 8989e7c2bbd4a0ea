import HeapAudit.Proofs.AllocationIds
import HeapAudit.Proofs.Balance
import Mathlib.Data.List.Forall2
import Mathlib.Data.List.Nodup

namespace HeapAudit.Ledger
open scoped List

/-- Every id ends in a number already used, and no two ids are the same. -/
structure Numbered (l : Ledger) : Prop where
  used : ∀ a ∈ l.allocations, ∃ n < l.serial, a.id = allocationId a.var a.line n
  distinct : (l.allocations.map (·.id)).Nodup

theorem Numbered.eq_of_id {l : Ledger} (h : Numbered l) {a b : Allocation}
    (ha : a ∈ l.allocations) (hb : b ∈ l.allocations) (he : a.id = b.id) : a = b :=
  List.inj_on_of_nodup_map h.distinct ha hb he

theorem fresh_numbered (language : Language) (serial : Nat) : Numbered (fresh language serial) :=
  ⟨by simp [fresh], List.nodup_nil⟩

theorem Numbered.congr {l next : Ledger} (h : Numbered l) (ha : next.allocations = l.allocations)
    (hn : l.serial ≤ next.serial) : Numbered next := by
  refine ⟨?_, by rw [ha]; exact h.distinct⟩
  intro a hm
  rw [ha] at hm
  obtain ⟨n, hlt, he⟩ := h.used a hm
  exact ⟨n, by omega, he⟩

theorem Numbered.record {l : Ledger} (h : Numbered l) (e : Event) (size : Int) :
    ∀ a ∈ l.allocations, a.id ≠ (l.record e size).id := by
  intro a ha he
  obtain ⟨n, hlt, hid⟩ := h.used a ha
  have hn := serial_of_allocationId (hid.symm.trans he)
  omega

theorem Numbered.turn {estimate : Estimator} {l next : Ledger} {e : Option Event}
    (h : Numbered l) (t : Turn estimate l e next) : Numbered next := by
  cases t with
  | idle he => exact h
  | @bound e size hv hk hs =>
    have hrec := h.record e size
    refine ⟨?_, ?_⟩
    · intro a ha
      change a ∈ (l.evict e.var e.line).allocations ++ [_] at ha
      change ∃ n < (l.evict e.var e.line).serial + 1, _
      rw [evict_allocations] at ha
      rw [evict_serial]
      rcases List.mem_append.mp ha with ha | ha
      · obtain ⟨n, hlt, he⟩ := h.used a ha
        exact ⟨n, by omega, he⟩
      · rw [List.mem_singleton] at ha
        subst ha
        exact ⟨l.serial, by omega, rfl⟩
    · change (((l.evict e.var e.line).allocations ++ [l.record e size]).map (·.id)).Nodup
      rw [evict_allocations, List.map_append]
      refine List.nodup_append.mpr ⟨h.distinct, by simp, ?_⟩
      rintro id hid other ho rfl
      obtain ⟨a, ha, rfl⟩ := List.mem_map.mp hid
      rw [List.map_singleton, List.mem_singleton] at ho
      exact hrec a ha ho
  | @refused e fault hv hk hs =>
    refine h.congr (evict_allocations ..) ?_
    change l.serial ≤ (l.evict e.var e.line).serial + 1
    rw [evict_serial]
    omega
  | @released e hv hk =>
    obtain ⟨-, hser, -, ha, -, -⟩ := release_frame l e
    exact h.congr ha hser.ge

/-- A leak that is the report on an allocation. -/
def Reports (kind : LeakKind) (k : Leak) (a : Allocation) : Prop := ∃ fix, k = leakOf a kind fix

theorem reports_fields {kind : LeakKind} {ks : List Leak} {as : List Allocation}
    (h : List.Forall₂ (Reports kind) ks as) :
    ks.map (·.id) = as.map (·.id) ∧ ks.map (·.size) = as.map (·.size) ∧
      ∀ k ∈ ks, k.kind = kind := by
  induction h with
  | nil => simp
  | cons hk hks ih =>
    obtain ⟨fix, rfl⟩ := hk
    obtain ⟨hid, hsize, hkind⟩ := ih
    simp only [List.map_cons, hid, hsize, List.forall_mem_cons]
    exact ⟨rfl, rfl, rfl, hkind⟩

/-- Where every allocation is: freed, evicted or live. -/
structure Accounted (l : Ledger) (freed evicted : List Allocation) : Prop where
  frees : l.frees.map (·.freed) = freed.map (·.id)
  leaks : List.Forall₂ (Reports .reassignment) l.leaks evicted
  settled : l.allocations.Perm (freed ++ evicted ++ l.holdings.live)

theorem fresh_accounted (language : Language) (serial : Nat) :
    Accounted (fresh language serial) [] [] :=
  ⟨rfl, .nil, .refl _⟩

theorem Accounted.evict {l : Ledger} {freed evicted : List Allocation}
    (h : Accounted l freed evicted) (hs : Sound l) (var : String) (line : LineNo) :
    ∃ evicted', Accounted (l.evict var line) freed evicted' := by
  rcases vacant_or_held l var with hv | ⟨a, rest, hg⟩
  · rw [evict_vacant line hv]
    exact ⟨evicted, h⟩
  · rw [evict_held line hg]
    refine ⟨evicted ++ [a], h.frees, List.rel_append h.leaks (.cons ⟨_, rfl⟩ .nil), ?_⟩
    have hout := Holdings.live_perm hs.keys var
    rw [hg, Option.getD_some, List.cons_append] at hout
    have hin := (Holdings.live_put hs.keys var rest).symm
    calc l.allocations
      _ ~ freed ++ evicted ++ l.holdings.live := h.settled
      _ ~ freed ++ evicted ++ (a :: (l.holdings.put var rest).live) :=
        (hout.trans (hin.cons a)).append_left _
      _ = freed ++ (evicted ++ [a]) ++ (l.holdings.put var rest).live := by simp

theorem Accounted.enter {l : Ledger} {freed evicted : List Allocation}
    (h : Accounted l freed evicted) (hs : Sound l) {a : Allocation}
    (hv : (l.holdings.get? a.var).getD [] = []) : Accounted (l.enter a) freed evicted := by
  unfold Ledger.enter
  rw [hv]
  refine ⟨h.frees, h.leaks, ?_⟩
  have hout := Holdings.live_perm hs.keys a.var
  rw [hv, List.nil_append] at hout
  have hin := (Holdings.live_put hs.keys a.var [a]).symm
  calc l.allocations ++ [a]
    _ ~ freed ++ evicted ++ l.holdings.live ++ [a] := h.settled.append_right _
    _ = freed ++ evicted ++ (l.holdings.live ++ [a]) := List.append_assoc ..
    _ ~ freed ++ evicted ++ ([a] ++ l.holdings.live) := List.perm_append_comm.append_left _
    _ ~ freed ++ evicted ++ (l.holdings.put a.var [a]).live :=
      ((hout.append_left [a]).trans hin).append_left _

theorem Accounted.release {l : Ledger} {freed evicted : List Allocation}
    (h : Accounted l freed evicted) (hs : Sound l) (e : Event) :
    ∃ freed', Accounted (l.release e) freed' evicted := by
  rcases release_cases l e with ⟨kind, message, hw⟩ | ⟨a, rest, hg⟩
  · rw [hw]
    exact ⟨freed, h.frees, h.leaks, h.settled⟩
  · rw [release_held hg]
    refine ⟨freed ++ [a], ?_, h.leaks, ?_⟩
    · rw [List.map_append, List.map_append, h.frees]
      rfl
    · have hout := Holdings.live_perm hs.keys e.var
      rw [hg, Option.getD_some, List.cons_append] at hout
      have hin := (Holdings.live_keep hs.keys e.var rest).symm
      calc l.allocations
        _ ~ freed ++ evicted ++ l.holdings.live := h.settled
        _ ~ freed ++ evicted ++ (a :: (l.holdings.keep e.var rest).live) :=
          (hout.trans (hin.cons a)).append_left _
        _ = freed ++ (evicted ++ [a]) ++ (l.holdings.keep e.var rest).live := by simp
        _ ~ freed ++ ([a] ++ evicted) ++ (l.holdings.keep e.var rest).live :=
          (List.perm_append_comm.append_left _).append_right _
        _ = freed ++ [a] ++ evicted ++ (l.holdings.keep e.var rest).live := by simp

theorem Accounted.turn {estimate : Estimator} {l next : Ledger} {e : Option Event}
    {freed evicted : List Allocation} (h : Accounted l freed evicted) (hs : Sound l)
    (t : Turn estimate l e next) : ∃ freed' evicted', Accounted next freed' evicted' := by
  cases t with
  | idle he => exact ⟨freed, evicted, h⟩
  | @bound e size hv hk hsize =>
    obtain ⟨evicted', h'⟩ := h.evict hs e.var e.line
    have ht : Accounted (l.evict e.var e.line).tick freed evicted' :=
      ⟨h'.frees, h'.leaks, h'.settled⟩
    exact ⟨freed, evicted', ht.enter (hs.evict e.var e.line).tick (hs.vacated e.var e.line)⟩
  | @refused e fault hv hk hsize =>
    obtain ⟨evicted', h'⟩ := h.evict hs e.var e.line
    exact ⟨freed, evicted', h'.frees, h'.leaks, h'.settled⟩
  | @released e hv hk =>
    obtain ⟨freed', h'⟩ := h.release hs e
    exact ⟨freed', evicted, h'⟩

/-- The books between events: sound, numbered, and every allocation in one place. -/
structure Kept (l : Ledger) : Prop where
  sound : Sound l
  numbered : Numbered l
  accounted : ∃ freed evicted, Accounted l freed evicted

theorem fresh_kept (language : Language) (serial : Nat) : Kept (fresh language serial) :=
  ⟨fresh_sound .., fresh_numbered .., [], [], fresh_accounted ..⟩

theorem Kept.process {l : Ledger} (h : Kept l) (estimate : Estimator) (e : Option Event) :
    Kept (l.process estimate e) := by
  have ht := handle_turn estimate l e
  obtain ⟨freed, evicted, ha⟩ := h.accounted
  obtain ⟨freed', evicted', ha'⟩ := ha.turn h.sound ht
  exact ⟨h.sound.process estimate e, (h.numbered.turn ht).congr rfl le_rfl,
    freed', evicted', ha'.frees, ha'.leaks, ha'.settled⟩

theorem Kept.feed {l : Ledger} (h : Kept l) (estimate : Estimator) (stream : List (Option Event)) :
    Kept (l.feed estimate stream) :=
  feed_keeps (fun _ e hk => hk.process estimate e) h stream

/-- The allocations that ids name, in the order of allocation. -/
def named (l : Ledger) (ids : List String) : List Allocation :=
  l.allocations.filter fun a => ids.contains a.id

/-- Ids pick allocations out as well as the allocations themselves would. -/
theorem Numbered.mem_named {l : Ledger} (h : Numbered l) {as : List Allocation}
    (hs : ∀ a ∈ as, a ∈ l.allocations) {a : Allocation} :
    a ∈ l.named (as.map (·.id)) ↔ a ∈ as := by
  unfold named
  rw [List.mem_filter, List.contains_iff_mem, List.mem_map]
  constructor
  · rintro ⟨ha, b, hb, he⟩
    rwa [← h.eq_of_id (hs b hb) ha he]
  · intro ha
    exact ⟨hs a ha, a, ha, rfl⟩

theorem Numbered.named_perm {l : Ledger} (h : Numbered l) {as : List Allocation}
    (hs : ∀ a ∈ as, a ∈ l.allocations) (hn : as.Nodup) : l.named (as.map (·.id)) ~ as := by
  have hall : l.allocations.Nodup := h.distinct.of_map _
  exact (List.perm_ext_iff_of_nodup (hall.filter _) hn).mpr fun a => h.mem_named hs

def unreleased (l : Ledger) : List Allocation := l.named (l.holdings.live.map (·.id))

theorem finish_open {l : Ledger} (hf : l.finished = false) :
    l.finish =
      { l with
        finished := true
        leaks := l.leaks ++ (unreleased l).map fun a =>
          leakOf a .unreleased (Advice.onUnreleased l.language a) } := by
  rw [finish, hf]
  rfl

theorem unreleased_reports (l : Ledger) :
    List.Forall₂ (Reports .unreleased) ((unreleased l).map fun a =>
      leakOf a .unreleased (Advice.onUnreleased l.language a)) (unreleased l) := by
  rw [List.forall₂_map_left_iff, List.forall₂_same]
  exact fun a _ => ⟨_, rfl⟩

/-- Nothing is lost and nothing is counted twice once the books are closed. -/
structure Conserved (l : Ledger) : Prop where
  distinct : (l.allocations.map (·.id)).Nodup
  once : ∀ a ∈ l.allocations, (l.frees.map (·.freed) ++ l.leaks.map (·.id)).count a.id = 1
  known : ∀ id ∈ l.frees.map (·.freed) ++ l.leaks.map (·.id), id ∈ l.allocations.map (·.id)
  count : l.allocations.length = l.frees.length + l.leaks.length
  bytes : total l.allocations =
    total (l.named (l.frees.map (·.freed))) + (l.leaks.map (·.size)).sum
  last : ∀ s, l.timeline.getLast? = some s →
    s.memory = ((l.leaks.filter (·.kind = .unreleased)).map (·.size)).sum

/-- At the end every allocation is freed, evicted or unreleased. -/
theorem Kept.settled {l : Ledger} (h : Kept l) :
    ∃ freed evicted, Accounted l freed evicted ∧ freed.Nodup ∧
      l.unreleased ~ l.holdings.live ∧ l.allocations ~ freed ++ evicted ++ l.unreleased := by
  obtain ⟨freed, evicted, ha⟩ := h.accounted
  have hn := ha.settled.nodup_iff.mp (h.numbered.distinct.of_map _)
  have hu : l.unreleased ~ l.holdings.live :=
    h.numbered.named_perm (fun a hm => h.sound.live_mem hm)
      (hn.sublist (List.sublist_append_right ..))
  refine ⟨freed, evicted, ha, ?_, hu, ha.settled.trans (hu.symm.append_left _)⟩
  rw [List.append_assoc] at hn
  exact hn.sublist (List.sublist_append_left ..)

theorem Kept.places {l : Ledger} (h : Kept l) :
    l.frees.map (·.freed) ++ l.leaks.map (·.id) ++ l.unreleased.map (·.id) ~
      l.allocations.map (·.id) := by
  obtain ⟨freed, evicted, ha, -, -, hp⟩ := h.settled
  rw [ha.frees, (reports_fields ha.leaks).1, ← List.map_append, ← List.map_append]
  exact (hp.map _).symm

theorem Kept.finish_ids {l : Ledger} (h : Kept l) (hf : l.finished = false) :
    l.finish.frees.map (·.freed) ++ l.finish.leaks.map (·.id) ~ l.allocations.map (·.id) := by
  have hplaces := h.places
  rw [← (reports_fields (unreleased_reports l)).1, List.append_assoc, ← List.map_append] at hplaces
  rw [finish_open hf]
  exact hplaces

/-- With distinct keys an entry is the only one with its key, here and in another list. -/
theorem filter_key {α β : Type} {f : α → String} {g : β → String} {xs : List α} {ys : List β}
    (hn : (xs.map f ++ ys.map g).Nodup) {x : α} (hx : x ∈ xs) :
    xs.filter (fun y => f y = f x) = [x] ∧ ys.filter (fun y => g y = f x) = [] := by
  obtain ⟨hxs, -, hdisjoint⟩ := List.nodup_append.mp hn
  refine ⟨?_, ?_⟩
  · obtain ⟨before, after, rfl⟩ := List.append_of_mem hx
    have hother : ∀ y ∈ before ++ after, f y ≠ f x := by
      intro y hy
      have hmid := List.nodup_middle.mp (by simpa using hxs)
      have hnot := (List.nodup_cons.mp hmid).1
      intro he
      apply hnot
      rw [← List.map_append, ← he]
      exact List.mem_map.mpr ⟨y, hy, rfl⟩
    have hbefore : before.filter (fun y => f y = f x) = [] :=
      List.filter_eq_nil_iff.mpr fun y hy => by simpa using hother y (by simp [hy])
    have hafter : after.filter (fun y => f y = f x) = [] :=
      List.filter_eq_nil_iff.mpr fun y hy => by simpa using hother y (by simp [hy])
    simp [hbefore, hafter]
  · apply List.filter_eq_nil_iff.mpr
    intro y hy
    have hne := hdisjoint _ (List.mem_map.mpr ⟨x, hx, rfl⟩) _ (List.mem_map.mpr ⟨y, hy, rfl⟩)
    simpa using Ne.symm hne

/-- The sizes of the leaks, all of them and the unreleased ones. -/
theorem Accounted.finish_sizes {l : Ledger} {freed evicted : List Allocation}
    (ha : Accounted l freed evicted) (hf : l.finished = false)
    (hu : l.unreleased ~ l.holdings.live) :
    (l.finish.leaks.map (·.size)).sum = total evicted + total l.holdings.live ∧
      ((l.finish.leaks.filter (·.kind = .unreleased)).map (·.size)).sum =
        total l.holdings.live := by
  obtain ⟨-, hes, hek⟩ := reports_fields ha.leaks
  obtain ⟨-, hus, huk⟩ := reports_fields (unreleased_reports l)
  rw [finish_open hf]
  dsimp only
  refine ⟨?_, ?_⟩
  · rw [List.map_append, hes, hus, List.sum_append]
    exact congrArg _ (total_perm hu)
  · have hnone : l.leaks.filter (·.kind = .unreleased) = [] := by
      apply List.filter_eq_nil_iff.mpr
      intro k hk
      simp [hek k hk]
    rw [List.filter_append, hnone, List.nil_append, List.filter_eq_self.mpr, hus]
    · exact total_perm hu
    · intro k hk
      simp [huk k hk]

theorem Kept.finish_bytes {l : Ledger} (h : Kept l) (hf : l.finished = false) :
    total l.allocations =
      total (l.named (l.frees.map (·.freed))) + (l.finish.leaks.map (·.size)).sum := by
  obtain ⟨freed, evicted, ha, hn, hu, -⟩ := h.settled
  have hmem : ∀ a ∈ freed, a ∈ l.allocations := by
    intro a hm
    apply ha.settled.mem_iff.mpr
    simp [hm]
  rw [ha.frees, total_perm (h.numbered.named_perm hmem hn), (ha.finish_sizes hf hu).1,
    total_perm ha.settled, total_append, total_append, Int.add_assoc]

/-- Closing books whose last sample is of the memory in use. -/
theorem Kept.conserved {l : Ledger} (h : Kept l) (hf : l.finished = false)
    (hlast : ∀ s, l.timeline.getLast? = some s → s.memory = l.memory) : Conserved l.finish := by
  have hids := h.finish_ids hf
  have hframe : l.finish.allocations = l.allocations ∧ l.finish.frees = l.frees := by
    rw [finish_open hf]
    exact ⟨rfl, rfl⟩
  refine ⟨?_, ?_, ?_, ?_, ?_, ?_⟩
  · rw [hframe.1]
    exact h.numbered.distinct
  · intro a ha
    rw [hframe.1] at ha
    rw [hids.count_eq]
    exact List.count_eq_one_of_mem h.numbered.distinct (List.mem_map.mpr ⟨a, ha, rfl⟩)
  · intro id hid
    rw [hframe.1]
    exact hids.mem_iff.mp hid
  · have hlength := hids.length_eq
    simp only [List.length_append, List.length_map] at hlength
    rw [hframe.1, hlength]
  · rw [named, hframe.1, hframe.2]
    exact h.finish_bytes hf
  · intro s hs
    obtain ⟨freed, evicted, ha, -, hu, -⟩ := h.settled
    rw [finish_timeline] at hs
    rw [(ha.finish_sizes hf hu).2, ← h.sound.memory, hlast s hs]

/-- Every stream, also one with events that fail or mean nothing, leaves each allocation in one
free or one leak, and the bytes in use after its last event are the bytes left unreleased. -/
theorem settle_conserved (estimate : Estimator) (language : Language) (serial : Nat)
    (stream : List (Option Event)) :
    Conserved (settle estimate language serial stream) ∧
      (settle estimate language serial stream).timeline.length = stream.length := by
  have h : Kept (feed estimate (fresh language serial) stream) :=
    (fresh_kept language serial).feed estimate stream
  have hf : (feed estimate (fresh language serial) stream).finished = false :=
    feed_finished estimate (fresh language serial) stream
  refine ⟨h.conserved hf fun s => feed_last_sample, ?_⟩
  rw [settle, finish_timeline, feed_eq_replay, replay_length, processed_map]

end HeapAudit.Ledger
