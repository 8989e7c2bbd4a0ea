import HeapAudit.Proofs.Conservation
import HeapAudit.Proofs.Renumbering
import Mathlib.Algebra.BigOperators.Group.Finset.Piecewise

namespace HeapAudit.Ledger
open Renumbering

theorem evict_elsewhere {l : Ledger} (hs : Sound l) {var other : String} (line : LineNo)
    (hne : other ≠ var) :
    (l.evict other line).findings.on var = l.findings.on var ∧
      (l.evict other line).holdings.get? var = l.holdings.get? var := by
  rcases vacant_or_held l other with hv | ⟨a, rest, hg⟩
  · rw [evict_vacant line hv]
    exact ⟨rfl, rfl⟩
  · have ha : a.var = other := (hs.own other _ hg a List.mem_cons_self).1
    rw [evict_held line hg]
    refine ⟨?_, ?_⟩
    · simp [findings, Findings.on, leakOf, ha, hne]
    · dsimp only
      rw [Holdings.get?_put, if_neg hne.symm]

theorem enter_elsewhere (l : Ledger) {a : Allocation} {var : String} (hne : a.var ≠ var) :
    (l.enter a).findings.on var = l.findings.on var ∧
      (l.enter a).holdings.get? var = l.holdings.get? var := by
  refine ⟨?_, ?_⟩
  · simp [findings, Findings.on, Ledger.enter, hne]
  · rw [Ledger.enter, Holdings.get?_put, if_neg hne.symm]

theorem release_elsewhere {l : Ledger} (hs : Sound l) {e : Event} {var : String}
    (hne : e.var ≠ var) :
    (l.release e).findings.on var = l.findings.on var ∧
      (l.release e).holdings.get? var = l.holdings.get? var := by
  rcases release_cases l e with ⟨kind, message, hw⟩ | ⟨a, rest, hg⟩
  · rw [hw]
    exact ⟨by simp [findings, Findings.on, warn, hne], rfl⟩
  · have ha : a.var = e.var := (hs.own e.var _ hg a List.mem_cons_self).1
    rw [release_held hg]
    refine ⟨?_, ?_⟩
    · cases hm : Advice.mismatched a.primitive e.primitive with
      | false => simp [findings, Findings.on, freeOf, mismatch?, hm, hne]
      | true => simp [findings, Findings.on, freeOf, mismatch?, hm, ha, hne]
    · dsimp only
      rw [Holdings.get?_keep, if_neg hne.symm]

/-- A turn leaves alone what other variables hold and what is reported on them. -/
theorem Turn.elsewhere {estimate : Estimator} {l next : Ledger} {e : Option Event}
    (t : Turn estimate l e next) (hs : Sound l) {var : String}
    (he : ∀ event, e = some event → event.var ≠ var) :
    next.findings.on var = l.findings.on var ∧
      next.holdings.get? var = l.holdings.get? var ∧ l.serial ≤ next.serial := by
  cases t with
  | idle _ => exact ⟨rfl, rfl, le_rfl⟩
  | @bound e size hv hk hsize =>
    have hne := he e rfl
    obtain ⟨hf, hg⟩ := evict_elsewhere hs e.line hne
    obtain ⟨hf', hg'⟩ := enter_elsewhere (l.evict e.var e.line).tick
      (show (l.record e size).var ≠ var from hne)
    refine ⟨hf'.trans hf, hg'.trans hg, ?_⟩
    change l.serial ≤ (l.evict e.var e.line).serial + 1
    rw [evict_serial]
    omega
  | @refused e fault hv hk hsize =>
    obtain ⟨hf, hg⟩ := evict_elsewhere hs e.line (he e rfl)
    refine ⟨hf, hg, ?_⟩
    change l.serial ≤ (l.evict e.var e.line).serial + 1
    rw [evict_serial]
    omega
  | @released e hv hk =>
    obtain ⟨hf, hg⟩ := release_elsewhere hs (he e rfl)
    exact ⟨hf, hg, (release_frame l e).2.1.ge⟩

/-- A ledger of many variables seen beside the ledger of one of them alone. -/
structure Beside (r : Nat → Nat → Prop) (var : String) (l alone : Ledger) : Prop where
  language : l.language = alone.language
  findings : (l.findings.on var).Matches r alone.findings
  slot : Option.Rel (List.Forall₂ (Renumbered Allocation.id Allocation.bare r))
    (l.holdings.get? var) (alone.holdings.get? var)
  used : ∀ m n, r m n → m < l.serial ∧ n < alone.serial
  ordered : Ordered r

theorem fresh_beside (language : Language) (serial serial' : Nat) (var : String) :
    Beside (fun _ _ => False) var (fresh language serial) (fresh language serial') where
  language := rfl
  findings := ⟨.nil, .nil, .nil, rfl⟩
  slot := .none
  used := by simp
  ordered := by simp [Ordered]

theorem Beside.elsewhere {estimate : Estimator} {r : Nat → Nat → Prop} {var : String}
    {l next alone : Ledger} {e : Option Event} (h : Beside r var l alone) (hs : Sound l)
    (t : Turn estimate l e next) (he : ∀ event, e = some event → event.var ≠ var) :
    Beside r var next alone := by
  obtain ⟨hf, hg, hn⟩ := t.elsewhere hs he
  refine ⟨t.frame.1.trans h.language, ?_, ?_, ?_, h.ordered⟩
  · rw [hf]
    exact h.findings
  · rw [hg]
    exact h.slot
  · intro m n hr
    obtain ⟨hm, hn'⟩ := h.used m n hr
    exact ⟨by omega, hn'⟩

/-- Both hold nothing, in the same way, or both hold the same. -/
theorem Beside.slots {r : Nat → Nat → Prop} {var : String} {l alone : Ledger}
    (h : Beside r var l alone) :
    (l.holdings.get? var = none ∧ alone.holdings.get? var = none) ∨
    (l.holdings.get? var = some [] ∧ alone.holdings.get? var = some []) ∨
    ∃ a rest b rest', l.holdings.get? var = some (a :: rest) ∧
      alone.holdings.get? var = some (b :: rest') ∧
      Renumbered Allocation.id Allocation.bare r a b ∧
      List.Forall₂ (Renumbered Allocation.id Allocation.bare r) rest rest' := by
  have hslot := h.slot
  generalize l.holdings.get? var = held at hslot ⊢
  generalize alone.holdings.get? var = held' at hslot ⊢
  cases hslot with
  | none => exact .inl ⟨rfl, rfl⟩
  | some hs =>
    cases hs with
    | nil => exact .inr (.inl ⟨rfl, rfl⟩)
    | cons hab hrest => exact .inr (.inr ⟨_, _, _, _, rfl, rfl, hab, hrest⟩)

theorem Beside.stacks {r : Nat → Nat → Prop} {var : String} {l alone : Ledger}
    (h : Beside r var l alone) :
    List.Forall₂ (Renumbered Allocation.id Allocation.bare r)
      ((l.holdings.get? var).getD []) ((alone.holdings.get? var).getD []) := by
  rcases h.slots with ⟨hg, hg'⟩ | ⟨hg, hg'⟩ | ⟨a, rest, b, rest', hg, hg', hab, hrest⟩
  · simp [hg, hg']
  · simp [hg, hg']
  · rw [hg, hg']
    exact .cons hab hrest

theorem leakOf_renumbered {r : Nat → Nat → Prop} {a b : Allocation}
    (h : Renumbered Allocation.id Allocation.bare r a b) (kind : LeakKind) (fix : String) :
    Renumbered Leak.id Leak.bare r (leakOf a kind fix) (leakOf b kind fix) :=
  ⟨h.1, congrArg (fun c => leakOf c kind fix) h.2⟩

theorem Beside.evict {r : Nat → Nat → Prop} {var : String} {l alone : Ledger}
    (h : Beside r var l alone) (hs : Sound l) (line : LineNo) :
    Beside r var (l.evict var line) (alone.evict var line) := by
  rcases h.slots with ⟨hg, hg'⟩ | ⟨hg, hg'⟩ | ⟨a, rest, b, rest', hg, hg', hab, hrest⟩
  · rw [evict_vacant line (by simp [hg]), evict_vacant line (by simp [hg'])]
    exact h
  · rw [evict_vacant line (by simp [hg]), evict_vacant line (by simp [hg'])]
    exact h
  · have ha : a.var = var := (hs.own var _ hg a List.mem_cons_self).1
    have hfix : Advice.onReassignment l.language a line =
        Advice.onReassignment alone.language b line := by
      rw [h.language]
      exact hab.congr (Advice.onReassignment alone.language · line) fun _ => rfl
    rw [evict_held line hg, evict_held line hg']
    refine ⟨h.language, ⟨h.findings.allocations, h.findings.frees, ?_, h.findings.warnings⟩, ?_,
      h.used, h.ordered⟩
    · change List.Forall₂ _ ((l.leaks ++ [_]).filter _) (alone.leaks ++ [_])
      rw [List.filter_append, hfix]
      apply List.rel_append h.findings.leaks
      rw [List.filter_cons_of_pos (by simp [leakOf, ha])]
      exact .cons (leakOf_renumbered hab _ _) .nil
    · simp only [Holdings.get?_put, ↓reduceIte]
      exact .some hrest

/-- The allocation of an event gets the next number on either side. -/
theorem Beside.enter {r : Nat → Nat → Prop} {l alone : Ledger} {e : Event}
    (h : Beside r e.var l alone) (size : Int) :
    Beside (extend r l.serial alone.serial) e.var (l.tick.enter (l.record e size))
      (alone.tick.enter (alone.record e size)) := by
  have hmono : ∀ m n, r m n → extend r l.serial alone.serial m n := fun m n hr => .inl hr
  have hrec : Renumbered Allocation.id Allocation.bare (extend r l.serial alone.serial)
      (l.record e size) (alone.record e size) :=
    ⟨⟨e.var ++ "_line" ++ e.line.text, l.serial, alone.serial, .inr ⟨rfl, rfl⟩,
      allocationId_eq .., allocationId_eq ..⟩, by simp only [Allocation.bare, record]⟩
  have hf := h.findings.mono hmono
  refine ⟨h.language, ⟨?_, hf.frees, hf.leaks, hf.warnings⟩, ?_, ?_, h.ordered.extend h.used⟩
  · change List.Forall₂ _ ((l.allocations ++ [_]).filter _) (alone.allocations ++ [_])
    rw [List.filter_append]
    apply List.rel_append hf.allocations
    rw [List.filter_cons_of_pos (by simp [record])]
    exact .cons hrec .nil
  · change Option.Rel _ ((l.holdings.put e.var _).get? e.var)
      ((alone.holdings.put e.var _).get? e.var)
    simp only [Holdings.get?_put, ↓reduceIte]
    exact .some (.cons hrec (renumbered_mono hmono h.stacks))
  · rintro m n (hr | ⟨rfl, rfl⟩)
    · obtain ⟨hm, hn⟩ := h.used m n hr
      exact ⟨Nat.lt_succ_of_lt hm, Nat.lt_succ_of_lt hn⟩
    · exact ⟨Nat.lt_succ_self _, Nat.lt_succ_self _⟩

theorem Beside.warn {r : Nat → Nat → Prop} {l alone : Ledger} {e : Event}
    (h : Beside r e.var l alone) (kind : WarningKind) (message : String) :
    Beside r e.var (l.warn e kind message) (alone.warn e kind message) := by
  refine ⟨h.language, ⟨h.findings.allocations, h.findings.frees, h.findings.leaks, ?_⟩, h.slot,
    h.used, h.ordered⟩
  change (l.warnings ++ [_]).filter _ = alone.warnings ++ [_]
  rw [List.filter_append, List.filter_cons_of_pos (by simp), List.filter_nil]
  exact congrArg (· ++ _) h.findings.warnings

theorem Beside.release {r : Nat → Nat → Prop} {l alone : Ledger} {e : Event}
    (h : Beside r e.var l alone) (hs : Sound l) :
    Beside r e.var (l.release e) (alone.release e) := by
  rcases h.slots with ⟨hg, hg'⟩ | ⟨hg, hg'⟩ | ⟨a, rest, b, rest', hg, hg', hab, hrest⟩
  · rw [release_missing hg, release_missing hg']
    exact h.warn _ _
  · rw [release_empty hg, release_empty hg']
    exact h.warn _ _
  · have ha : a.var = e.var := (hs.own e.var _ hg a List.mem_cons_self).1
    have hm : mismatch? l.language a e = mismatch? alone.language b e := by
      rw [h.language]
      exact hab.congr (mismatch? alone.language · e) fun _ => rfl
    rw [release_held hg, release_held hg']
    refine ⟨h.language, ⟨h.findings.allocations, ?_, h.findings.leaks, ?_⟩, ?_, h.used,
      h.ordered⟩
    · change List.Forall₂ _ ((l.frees ++ [_]).filter _) (alone.frees ++ [_])
      rw [List.filter_append, List.filter_cons_of_pos (by simp [freeOf])]
      exact List.rel_append h.findings.frees (.cons ⟨hab.1, rfl⟩ .nil)
    · have hown : (mismatch? l.language a e).toList.filter (·.var = some e.var) =
          (mismatch? l.language a e).toList := by
        apply List.filter_eq_self.mpr
        intro w hw
        unfold mismatch? at hw
        split at hw
        · simp only [Option.toList_some, List.mem_singleton] at hw
          simp [hw, ha]
        · simp at hw
      change (l.warnings ++ (mismatch? l.language a e).toList).filter _ = alone.warnings ++ _
      rw [List.filter_append, hown, hm]
      exact congrArg (· ++ _) h.findings.warnings
    · simp only [Holdings.get?_keep, ↓reduceIte]
      cases hrest with
      | nil => exact .none
      | cons hab hrest => exact .some (.cons hab hrest)

/-- Whatever the ledger of many variables does on an event of this one, the other does too. -/
theorem Beside.turn {estimate : Estimator} {r : Nat → Nat → Prop} {l next alone : Ledger}
    {e : Event} (h : Beside r e.var l alone) (hs : Sound l) (t : Turn estimate l (some e) next) :
    ∃ r' next', Turn estimate alone (some e) next' ∧ Beside r' e.var next next' := by
  cases t with
  | idle hi => exact ⟨r, alone, .idle hi, h⟩
  | @bound e size hv hk hsize =>
    have hsize' : estimate.size alone.language e = .ok size := h.language ▸ hsize
    have hin := (h.evict hs e.line).enter size
    have hrec : (l.evict e.var e.line).record e size = l.record e size := by simp [record]
    have hrec' : (alone.evict e.var e.line).record e size = alone.record e size := by
      simp [record]
    rw [hrec, hrec'] at hin
    exact ⟨_, _, .bound hv hk hsize', hin⟩
  | @refused e fault hv hk hsize =>
    have hsize' : estimate.size alone.language e = .error fault := h.language ▸ hsize
    have hout := h.evict hs e.line
    refine ⟨r, _, .refused hv hk hsize', hout.language, hout.findings, hout.slot, ?_,
      hout.ordered⟩
    intro m n hr
    obtain ⟨hm, hn⟩ := hout.used m n hr
    exact ⟨Nat.lt_succ_of_lt hm, Nat.lt_succ_of_lt hn⟩
  | released hv hk => exact ⟨r, _, .released hv hk, h.release hs⟩

/-- The events of a stream on one variable. -/
def own (var : String) (stream : List (Option Event)) : List (Option Event) :=
  stream.filter fun e => e.any (·.var = var)

theorem own_cons_of_ne {var : String} {e : Option Event} (stream : List (Option Event))
    (he : ∀ event, e = some event → event.var ≠ var) : own var (e :: stream) = own var stream := by
  apply List.filter_cons_of_neg
  intro hany
  obtain ⟨event, hsome, hv⟩ := (Option.any_eq_true _ _).mp hany
  exact he event hsome (by simpa using hv)

theorem own_cons_of_eq {var : String} {e : Event} (stream : List (Option Event))
    (he : e.var = var) : own var (some e :: stream) = some e :: own var stream :=
  List.filter_cons_of_pos (by simp [he])

/-- Every event is on the variable or not. -/
theorem on_or_elsewhere (var : String) (e : Option Event) :
    (∃ event, e = some event ∧ event.var = var) ∨
      ∀ event, e = some event → event.var ≠ var := by
  cases e with
  | none => exact .inr (by simp)
  | some e =>
    by_cases hv : e.var = var
    · exact .inl ⟨e, rfl, hv⟩
    · exact .inr (by simpa using hv)

theorem Beside.sample {r : Nat → Nat → Prop} {var : String} {l alone : Ledger}
    (h : Beside r var l alone) (line : LineNo) :
    Beside r var (l.sample line) alone ∧ Beside r var (l.sample line) (alone.sample line) :=
  ⟨⟨h.language, h.findings, h.slot, h.used, h.ordered⟩,
    ⟨h.language, h.findings, h.slot, h.used, h.ordered⟩⟩

theorem Beside.feed {estimate : Estimator} {r : Nat → Nat → Prop} {var : String}
    {l alone : Ledger} (h : Beside r var l alone) (hs : Sound l) (stream : List (Option Event)) :
    ∃ r', Beside r' var (l.feed estimate stream) (alone.feed estimate (own var stream)) := by
  induction stream generalizing r l alone with
  | nil => exact ⟨r, h⟩
  | cons e stream ih =>
    have t := handle_turn estimate l e
    have hs' := hs.process estimate e
    rcases on_or_elsewhere var e with ⟨event, rfl, rfl⟩ | he
    · obtain ⟨r', next', t', h'⟩ := h.turn hs t
      have hnext : alone.process estimate (some event) = next'.sample event.line := by
        rw [process, t'.handle_eq]
        rfl
      rw [own_cons_of_eq stream rfl]
      change ∃ r', Beside r' event.var ((l.process estimate (some event)).feed estimate stream)
        ((alone.process estimate (some event)).feed estimate (own event.var stream))
      rw [hnext]
      exact ih (h'.sample event.line).2 hs'
    · rw [own_cons_of_ne stream he]
      exact ih ((h.elsewhere hs t he).sample _).1 hs'

theorem feed_beside (estimate : Estimator) (language : Language) (serial serial' : Nat)
    (var : String) (stream : List (Option Event)) :
    ∃ r, Beside r var (feed estimate (fresh language serial) stream)
      (feed estimate (fresh language serial') (own var stream)) :=
  (fresh_beside language serial serial' var).feed (fresh_sound language serial) stream

/-- A live allocation is in the stack of its variable. -/
theorem Sound.mem_live_iff {l : Ledger} (h : Sound l) {a : Allocation} :
    a ∈ l.holdings.live ↔ a ∈ (l.holdings.get? a.var).getD [] := by
  rw [Holdings.mem_live h.keys]
  constructor
  · rintro ⟨var, stack, hg, ha⟩
    rw [(h.own var stack hg a ha).1, hg]
    exact ha
  · intro ha
    cases hg : l.holdings.get? a.var with
    | none => simp [hg] at ha
    | some stack => exact ⟨a.var, stack, hg, by simpa [hg] using ha⟩

theorem Kept.unreleased_eq {l : Ledger} (h : Kept l) :
    l.unreleased = l.allocations.filter fun a => a ∈ (l.holdings.get? a.var).getD [] := by
  apply List.filter_congr
  intro a ha
  have hn := h.numbered.mem_named (a := a) fun b hb => h.sound.live_mem hb
  rw [named, List.mem_filter, h.sound.mem_live_iff] at hn
  rw [Bool.eq_iff_iff, decide_eq_true_iff, ← hn]
  exact ⟨fun hc => ⟨ha, hc⟩, fun hc => hc.2⟩

/-- What the lone ledger has recorded is all on its variable. -/
theorem Beside.alone_var {r : Nat → Nat → Prop} {var : String} {l alone : Ledger}
    (h : Beside r var l alone) : ∀ b ∈ alone.allocations, b.var = var := by
  have hvar : ∀ a ∈ (l.findings.on var).allocations, a.var = var := by
    intro a ha
    simpa using (List.mem_filter.mp ha).2
  have hall := h.findings.allocations
  change List.Forall₂ _ _ alone.allocations at hall
  generalize (l.findings.on var).allocations = as at hall hvar
  generalize alone.allocations = bs at hall
  induction hall with
  | nil => simp
  | @cons a b as bs hab _ ih =>
    intro c hc
    rcases List.mem_cons.mp hc with rfl | hc
    · have hv : a.var = c.var := hab.congr Allocation.var fun _ => rfl
      exact hv.symm.trans (hvar a List.mem_cons_self)
    · exact ih (fun d hd => hvar d (List.mem_cons_of_mem _ hd)) c hc

/-- What is live at the end is the same on both sides. -/
theorem Beside.unreleased {r : Nat → Nat → Prop} {var : String} {l alone : Ledger}
    (h : Beside r var l alone) (hk : Kept l) (hk' : Kept alone) :
    List.Forall₂ (Renumbered Allocation.id Allocation.bare r)
      (l.unreleased.filter (·.var = var)) alone.unreleased := by
  have hl : l.unreleased.filter (·.var = var) =
      (l.findings.on var).allocations.filter (· ∈ (l.holdings.get? var).getD []) := by
    rw [hk.unreleased_eq]
    change _ = (l.allocations.filter (·.var = var)).filter _
    rw [List.filter_filter, List.filter_filter]
    apply List.filter_congr
    intro a _
    by_cases hv : a.var = var
    · simp [hv]
    · simp [hv]
  have ha : alone.unreleased =
      alone.findings.allocations.filter (· ∈ (alone.holdings.get? var).getD []) := by
    rw [hk'.unreleased_eq]
    apply List.filter_congr
    intro b hb
    rw [h.alone_var b hb]
  rw [hl, ha]
  refine List.rel_filter ?_ h.findings.allocations
  intro a b hab
  simpa using List.rel_mem (allocation_biUnique h.ordered) hab h.stacks

theorem Beside.finish {r : Nat → Nat → Prop} {var : String} {l alone : Ledger}
    (h : Beside r var l alone) (hk : Kept l) (hk' : Kept alone) (hf : l.finished = false)
    (hf' : alone.finished = false) :
    (l.finish.findings.on var).Matches r alone.finish.findings := by
  rw [finish_open hf, finish_open hf']
  refine ⟨h.findings.allocations, h.findings.frees, ?_, h.findings.warnings⟩
  change List.Forall₂ _ ((l.leaks ++ l.unreleased.map _).filter _)
    (alone.leaks ++ alone.unreleased.map _)
  rw [List.filter_append, List.filter_map]
  refine List.rel_append h.findings.leaks (List.rel_map ?_ (h.unreleased hk hk'))
  intro a b hab
  have hfix : Advice.onUnreleased l.language a = Advice.onUnreleased alone.language b := by
    rw [h.language]
    exact hab.congr (Advice.onUnreleased alone.language) fun _ => rfl
  dsimp only
  rw [hfix]
  exact leakOf_renumbered hab _ _

/-- The live allocations of a variable are its stack. -/
theorem Sound.live_on {l : Ledger} (h : Sound l) (var : String) :
    (l.holdings.live.filter (·.var = var)).Perm ((l.holdings.get? var).getD []) := by
  have hp := (Holdings.live_perm h.keys var).filter (·.var = var)
  rw [List.filter_append] at hp
  have hin : ((l.holdings.get? var).getD []).filter (·.var = var) =
      (l.holdings.get? var).getD [] := by
    apply List.filter_eq_self.mpr
    intro a ha
    cases hg : l.holdings.get? var with
    | none => simp [hg] at ha
    | some stack => simpa using (h.own var stack hg a (by simpa [hg] using ha)).1
  have hout : (l.holdings.erase var).live.filter (·.var = var) = [] := by
    apply List.filter_eq_nil_iff.mpr
    intro a ha
    obtain ⟨other, stack, hg, hm⟩ := (Holdings.mem_live (Holdings.nodup_erase h.keys var)).mp ha
    rw [Holdings.get?_erase] at hg
    split at hg
    · cases hg
    · rename_i hne
      simpa [(h.own other stack hg a hm).1] using hne
  rwa [hin, hout, List.append_nil] at hp

theorem total_renumbered {r : Nat → Nat → Prop} {as bs : List Allocation}
    (h : List.Forall₂ (Renumbered Allocation.id Allocation.bare r) as bs) :
    total as = total bs := by
  induction h with
  | nil => rfl
  | @cons a b as bs hab _ ih =>
    have hsize : a.size = b.size := hab.congr Allocation.size fun _ => rfl
    rw [total_cons, total_cons, ih, hsize]

/-- The bytes live on a variable are the memory of its ledger alone. -/
theorem Beside.memory {r : Nat → Nat → Prop} {var : String} {l alone : Ledger}
    (h : Beside r var l alone) (hs : Sound l) (hs' : Sound alone) :
    total (l.holdings.live.filter (·.var = var)) = alone.memory := by
  have hall : alone.holdings.live.filter (·.var = var) = alone.holdings.live := by
    apply List.filter_eq_self.mpr
    intro b hb
    simpa using h.alone_var b (hs'.live_mem hb)
  rw [hs'.memory, ← hall, total_perm (hs.live_on var), total_perm (hs'.live_on var)]
  exact total_renumbered h.stacks

theorem total_by_var {as : List Allocation} {vars : Finset String} (h : ∀ a ∈ as, a.var ∈ vars) :
    total as = ∑ var ∈ vars, total (as.filter (·.var = var)) := by
  induction as with
  | nil => simp
  | cons a as ih =>
    have hone : ∀ var, total ((a :: as).filter (·.var = var)) =
        (if a.var = var then a.size else 0) + total (as.filter (·.var = var)) := by
      intro var
      by_cases hv : a.var = var
      · simp [hv]
      · simp [hv]
    simp only [hone]
    rw [Finset.sum_add_distrib, Finset.sum_ite_eq, if_pos (h a List.mem_cons_self), total_cons,
      ih fun b hb => h b (List.mem_cons_of_mem _ hb)]

/-- The variables that the events of a stream name. -/
def varsOf (stream : List (Option Event)) : Finset String :=
  (stream.filterMap fun e => e.map (·.var)).toFinset

theorem own_of_not_mem {var : String} {stream : List (Option Event)}
    (hv : var ∉ varsOf stream) : own var stream = [] := by
  apply List.filter_eq_nil_iff.mpr
  intro e he hany
  obtain ⟨event, rfl, hvar⟩ := (Option.any_eq_true _ _).mp hany
  apply hv
  simp only [varsOf, List.mem_toFinset, List.mem_filterMap]
  exact ⟨some event, he, by simpa using hvar⟩

theorem feed_memory (estimate : Estimator) (language : Language) (serial serial' : Nat)
    {stream : List (Option Event)} {vars : Finset String} (hv : varsOf stream ⊆ vars) :
    (feed estimate (fresh language serial) stream).memory =
      ∑ var ∈ vars, (feed estimate (fresh language serial') (own var stream)).memory := by
  have hs := (fresh_sound language serial).feed estimate stream
  have hlive : ∀ a ∈ (feed estimate (fresh language serial) stream).holdings.live,
      a.var ∈ vars := by
    intro a ha
    by_contra hout
    obtain ⟨r, h⟩ := feed_beside estimate language serial serial' a.var stream
    rw [own_of_not_mem fun hm => hout (hv hm)] at h
    have hstack := h.stacks
    rw [show (feed estimate (fresh language serial') []).holdings.get? a.var = none from rfl,
      Option.getD_none, List.forall₂_nil_right_iff] at hstack
    rw [hs.mem_live_iff, hstack] at ha
    simp at ha
  rw [hs.memory, total_by_var hlive]
  apply Finset.sum_congr rfl
  intro var _
  obtain ⟨r, h⟩ := feed_beside estimate language serial serial' var stream
  exact h.memory hs ((fresh_sound language serial').feed estimate _)

theorem settle_alike (estimate : Estimator) (language : Language) (serial : Nat)
    (stream : List (Option Event)) (var : String) :
    ((settle estimate language serial stream).findings.on var).Alike
      (settle estimate language serial (own var stream)).findings := by
  obtain ⟨r, h⟩ := feed_beside estimate language serial serial var stream
  have hk := (fresh_kept language serial).feed estimate
  have hf := feed_finished estimate (fresh language serial)
  exact ⟨r, h.ordered, h.finish (hk stream) (hk (own var stream)) (hf stream)
    (hf (own var stream))⟩

theorem own_swap {var : String} {x y : Event} (hne : x.var ≠ y.var)
    (before after : List (Option Event)) :
    own var (before ++ some x :: some y :: after) =
      own var (before ++ some y :: some x :: after) := by
  unfold own
  rw [List.filter_append, List.filter_append]
  congr 1
  by_cases hx : x.var = var
  · have hy : y.var ≠ var := fun hy => hne (hx.trans hy.symm)
    simp [hx, hy]
  · simp [List.filter_cons, hx]

/-- What a stream leads to on a variable is what the events on that variable alone lead to, in
findings and in bytes, so events on different variables may change places. -/
theorem settle_independent (estimate : Estimator) (language : Language) (serial : Nat)
    (stream : List (Option Event)) :
    (∀ var, ((settle estimate language serial stream).findings.on var).Alike
      (settle estimate language serial (own var stream)).findings) ∧
    (∀ before, before <+: stream →
      (feed estimate (fresh language serial) before).memory =
        ∑ var ∈ varsOf stream,
          (feed estimate (fresh language serial) (own var before)).memory) ∧
    ∀ before x y after, stream = before ++ some x :: some y :: after → x.var ≠ y.var →
      ∀ var, ((settle estimate language serial stream).findings.on var).Alike
        ((settle estimate language serial
          (before ++ some y :: some x :: after)).findings.on var) := by
  refine ⟨settle_alike estimate language serial stream, ?_, ?_⟩
  · intro before hp
    apply feed_memory
    intro var hm
    simp only [varsOf, List.mem_toFinset, List.mem_filterMap] at hm ⊢
    obtain ⟨e, he, hv⟩ := hm
    exact ⟨e, hp.subset he, hv⟩
  · rintro before x y after rfl hne var
    have hxy := settle_alike estimate language serial (before ++ some x :: some y :: after) var
    have hyx := settle_alike estimate language serial (before ++ some y :: some x :: after) var
    rw [own_swap hne] at hxy
    exact hxy.trans hyx.symm

def acquireOn (var : String) (line : Int) : Event :=
  { kind := .allocation, var, line := some line, primitive := "new" }

def releaseOn (var : String) (line : Int) : Event :=
  { kind := .deallocation, var, line := some line, primitive := "delete" }

/-- A release of `p` and an allocation of `q` change places. -/
theorem settle_independent_two :
    (acquireOn "q" 2).var ≠ (releaseOn "p" 3).var ∧
    ∀ var, ((settle .standard .cpp 1
        [some (acquireOn "p" 1), some (acquireOn "q" 2), some (releaseOn "p" 3)]).findings.on
          var).Alike
      ((settle .standard .cpp 1
        [some (acquireOn "p" 1), some (releaseOn "p" 3), some (acquireOn "q" 2)]).findings.on
          var) := by
  have hne : (acquireOn "q" 2).var ≠ (releaseOn "p" 3).var := by decide
  have h := settle_independent .standard .cpp 1
    [some (acquireOn "p" 1), some (acquireOn "q" 2), some (releaseOn "p" 3)]
  exact ⟨hne, h.2.2 [some (acquireOn "p" 1)] (acquireOn "q" 2) (releaseOn "p" 3) [] rfl hne⟩

end HeapAudit.Ledger
