import HeapAudit.Proofs.ArgumentLists

namespace HeapAudit.Statement
open Text

def IsQuote (c : Char) : Prop := c = '"' ∨ c = '\''

def IsOpening (c : Char) : Prop := c = '(' ∨ c = '['

def IsClosing (c : Char) : Prop := c = ')' ∨ c = ']'

/-- What follows an opening quote, up to the quote that closes it. A backslash takes the character
after it along, whatever that is. -/
inductive Quoted (q : Char) : Chars → Prop
  | close : Quoted q [q]
  | escape (c : Char) {rest : Chars} (h : Quoted q rest) : Quoted q ('\\' :: c :: rest)
  | plain {c : Char} {rest : Chars} (hq : c ≠ q) (hs : c ≠ '\\') (h : Quoted q rest) :
      Quoted q (c :: rest)

/-- Text whose end is outside of quotes, and inside of so many brackets. A closing bracket that
closes nothing is passed. -/
inductive Outside : Chars → Nat → Prop
  | nil : Outside [] 0
  | opening {cs : Chars} {depth : Nat} {c : Char} (hc : IsOpening c) (h : Outside cs depth) :
      Outside (cs ++ [c]) (depth + 1)
  | closing {cs : Chars} {depth : Nat} {c : Char} (hc : IsClosing c) (h : Outside cs (depth + 1)) :
      Outside (cs ++ [c]) depth
  | surplus {cs : Chars} {c : Char} (hc : IsClosing c) (h : Outside cs 0) : Outside (cs ++ [c]) 0
  | plain {cs : Chars} {depth : Nat} {c : Char} (hq : ¬ IsQuote c) (ho : ¬ IsOpening c)
      (hc : ¬ IsClosing c) (h : Outside cs depth) : Outside (cs ++ [c]) depth
  | quoted {cs body : Chars} {depth : Nat} {q : Char} (hq : IsQuote q) (hbody : Quoted q body)
      (h : Outside cs depth) : Outside (cs ++ q :: body) depth

theorem placeAfter_concat (cs : Chars) (c : Char) :
    placeAfter (cs ++ [c]) = (placeAfter cs).next c := by
  simp [placeAfter]

section Next

variable {c q : Char} {depth : Nat}

theorem next_quote (h : IsQuote c) :
    Place.next { depth := depth } c = { quote := some c, depth := depth } := by
  rcases h with rfl | rfl <;> rfl

theorem next_opening (h : IsOpening c) :
    Place.next { depth := depth } c = { depth := depth + 1 } := by
  rcases h with rfl | rfl <;> rfl

theorem next_closing (h : IsClosing c) :
    Place.next { depth := depth } c = { depth := depth - 1 } := by
  rcases h with rfl | rfl <;> rfl

theorem next_plain (hq : ¬ IsQuote c) (ho : ¬ IsOpening c) (hc : ¬ IsClosing c) :
    Place.next { depth := depth } c = { depth := depth } := by
  unfold IsQuote at hq
  unfold IsOpening at ho
  unfold IsClosing at hc
  simp [Place.next, hq, ho, hc]

end Next

theorem IsQuote.ne_backslash {q : Char} (h : IsQuote q) : q ≠ '\\' := by
  rcases h with rfl | rfl <;> decide

theorem IsQuote.not_blank {q : Char} (h : IsQuote q) : isBlank q = false := by
  rcases h with rfl | rfl <;> decide

/-- Quoted text is passed as a whole, and the brackets that are open stay so. -/
theorem Quoted.foldl_next {q : Char} (hq : IsQuote q) {body : Chars} (h : Quoted q body)
    (depth : Nat) :
    body.foldl Place.next { quote := some q, depth := depth } = { depth := depth } := by
  induction h with
  | close => simp [Place.next, hq.ne_backslash]
  | escape c h ih => simpa [Place.next] using ih
  | plain hne hs h ih => simpa [Place.next, hne, hs] using ih

theorem Outside.placeAfter_eq {cs : Chars} {depth : Nat} (h : Outside cs depth) :
    placeAfter cs = { depth := depth } := by
  induction h with
  | nil => rfl
  | opening hc h ih => rw [placeAfter_concat, ih, next_opening hc]
  | closing hc h ih => rw [placeAfter_concat, ih, next_closing hc, Nat.add_sub_cancel]
  | surplus hc h ih => rw [placeAfter_concat, ih, next_closing hc]
  | plain hq ho hc h ih => rw [placeAfter_concat, ih, next_plain hq ho hc]
  | @quoted cs body depth q hq hbody h ih =>
    have hpass : placeAfter (cs ++ q :: body) = body.foldl Place.next ((placeAfter cs).next q) := by
      simp [placeAfter]
    rw [hpass, ih, next_quote hq, hbody.foldl_next hq]

/-- Where the scan stands after a text. Inside of quotes, it is said what would close them. -/
inductive Reached : Place → Chars → Prop
  | outside {cs : Chars} {depth : Nat} (h : Outside cs depth) : Reached { depth := depth } cs
  | inside {before body : Chars} {depth : Nat} {q : Char} (hq : IsQuote q)
      (h : Outside before depth) (hbody : ∀ rest, Quoted q rest → Quoted q (body ++ rest)) :
      Reached { quote := some q, depth := depth } (before ++ q :: body)
  | escaped {before body : Chars} {depth : Nat} {q : Char} (hq : IsQuote q)
      (h : Outside before depth)
      (hbody : ∀ c rest, Quoted q rest → Quoted q (body ++ c :: rest)) :
      Reached { quote := some q, escaped := true, depth := depth } (before ++ q :: body)

theorem Outside.next {cs : Chars} {depth : Nat} (h : Outside cs depth) (c : Char) :
    Reached (Place.next { depth := depth } c) (cs ++ [c]) := by
  by_cases hq : IsQuote c
  · rw [next_quote hq]
    exact .inside hq h fun rest hrest => hrest
  by_cases ho : IsOpening c
  · rw [next_opening ho]
    exact .outside (h.opening ho)
  by_cases hc : IsClosing c
  · rw [next_closing hc]
    cases depth with
    | zero => exact .outside (h.surplus hc)
    | succ depth => exact .outside (h.closing hc)
  · rw [next_plain hq ho hc]
    exact .outside (h.plain hq ho hc)

/-- One character more. -/
theorem Reached.next {p : Place} {cs : Chars} (h : Reached p cs) (c : Char) :
    Reached (p.next c) (cs ++ [c]) := by
  cases h with
  | outside h => exact h.next c
  | @inside before body depth q hq h hbody =>
    -- A backslash escapes even the quote, so it is asked for first.
    rw [List.append_assoc, List.cons_append]
    by_cases hs : c = '\\'
    · subst hs
      refine Reached.escaped hq h fun c rest hrest => ?_
      simpa using hbody _ (hrest.escape c)
    by_cases hc : c = q
    · subst hc
      have hclose : Place.next { quote := some c, depth := depth } c = { depth := depth } := by
        simp [Place.next, hs]
      rw [hclose]
      exact .outside (h.quoted hq (hbody [c] .close))
    · have hstay : Place.next { quote := some q, depth := depth } c =
          { quote := some q, depth := depth } := by
        simp [Place.next, hs, hc]
      rw [hstay]
      refine .inside hq h fun rest hrest => ?_
      simpa using hbody _ (hrest.plain hc hs)
  | escaped hq h hbody =>
    rw [List.append_assoc, List.cons_append]
    refine Reached.inside hq h fun rest hrest => ?_
    simpa using hbody c rest hrest

theorem reached_placeAfter (cs : Chars) : Reached (placeAfter cs) cs := by
  induction cs using List.reverseRecOn with
  | nil => exact .outside .nil
  | append_singleton cs c ih =>
    rw [placeAfter_concat]
    exact ih.next c

/-- The scan takes a semicolon for a separator exactly if the text before it is outside of quotes
and brackets. -/
theorem atTop_iff (cs : Chars) : (placeAfter cs).atTop = true ↔ Outside cs 0 := by
  constructor
  · intro h
    have hr := reached_placeAfter cs
    generalize placeAfter cs = p at h hr
    cases hr with
    | @outside _ depth ho =>
      have hdepth : depth = 0 := by simpa [Place.atTop] using h
      rwa [hdepth] at ho
    | inside hq ho hbody => simp [Place.atTop] at h
    | escaped hq ho hbody => simp [Place.atTop] at h
  · intro h
    rw [h.placeAfter_eq]
    rfl

instance (cs : Chars) : Decidable (Outside cs 0) := decidable_of_iff _ (atTop_iff cs)

section Blanks

variable {b : Char} (hb : isBlank b = true)

include hb

theorem ne_of_blank {c : Char} (hc : isBlank c = false) : b ≠ c := by
  rintro rfl
  rw [hb] at hc
  cases hc

theorem next_blank (depth : Nat) : Place.next { depth := depth } b = { depth := depth } := by
  have hneither : ∀ c d, isBlank c = false → isBlank d = false → ¬ (b = c ∨ b = d) :=
    fun c d hc hd h => h.elim (ne_of_blank hb hc) (ne_of_blank hb hd)
  apply next_plain
  · exact hneither '"' '\'' (by decide) (by decide)
  · exact hneither '(' '[' (by decide) (by decide)
  · exact hneither ')' ']' (by decide) (by decide)

/-- A blank closes neither quotes nor brackets. -/
theorem atTop_blank (cs : Chars) :
    (placeAfter (cs ++ [b])).atTop = (placeAfter cs).atTop := by
  have hr := reached_placeAfter cs
  rw [placeAfter_concat]
  generalize placeAfter cs = p at hr
  cases hr with
  | outside h => rw [next_blank hb]
  | inside hq h hbody =>
    have hopen := ne_of_blank hb hq.not_blank
    have hslash : b ≠ '\\' := ne_of_blank hb (by decide)
    simp [Place.next, hopen, hslash]
  | escaped hq h hbody => rfl

theorem placeAfter_blank (cs : Chars) : placeAfter (b :: cs) = placeAfter cs := by
  rw [placeAfter, List.foldl_cons, next_blank hb]
  rfl

end Blanks

theorem atTop_blanks {gap : Chars} (hg : ∀ b ∈ gap, isBlank b = true) (cs : Chars) :
    (placeAfter (cs ++ gap)).atTop = (placeAfter cs).atTop := by
  induction gap using List.reverseRecOn with
  | nil => rw [List.append_nil]
  | append_singleton gap b ih =>
    rw [← List.append_assoc, atTop_blank (hg b (by simp))]
    exact ih fun c hc => hg c (by simp [hc])

theorem placeAfter_trimLeft (cs : Chars) : placeAfter (trimLeft cs) = placeAfter cs := by
  induction cs with
  | nil => rfl
  | cons c cs ih =>
    unfold trimLeft
    rw [List.dropWhile_cons]
    split
    · rename_i hc
      rw [placeAfter_blank hc]
      exact ih
    · rfl

theorem atTop_trim (cs : Chars) : (placeAfter (trim cs)).atTop = (placeAfter cs).atTop := by
  obtain ⟨gap, hg, hsplit⟩ := exists_blanks_after (trimLeft cs)
  have hgap := atTop_blanks hg (trimRight (trimLeft cs))
  rw [← hsplit, placeAfter_trimLeft] at hgap
  exact hgap.symm

/-- No separator. -/
def Unparted (cs : Chars) : Prop := cut {} cs = [cs]

section Unparted

variable {cs : Chars}

/-- From any place on, a text is in one piece if its first character parts nothing and the rest is
in one piece from the next place on. -/
theorem cut_cons_eq {p : Place} {c : Char} :
    cut p (c :: cs) = [c :: cs] ↔
      ¬ (c = ';' ∧ p.atTop = true) ∧ cut (p.next c) cs = [cs] := by
  obtain ⟨first, rest, hcut⟩ := List.exists_cons_of_ne_nil (cut_ne_nil (p.next c) cs)
  rw [cut]
  split
  · rename_i hc
    simp [hc]
  · rename_i hc
    simp [hcut, hc]

theorem cut_of_append {p : Place} {rest : Chars} (h : cut p (cs ++ rest) = [cs ++ rest]) :
    cut p cs = [cs] := by
  induction cs generalizing p with
  | nil => rfl
  | cons c cs ih =>
    obtain ⟨hc, hrest⟩ := cut_cons_eq.mp h
    exact cut_cons_eq.mpr ⟨hc, ih hrest⟩

theorem cut_concat {p : Place} {c : Char} (h : cut p cs = [cs])
    (hc : ¬ (c = ';' ∧ (cs.foldl Place.next p).atTop = true)) :
    cut p (cs ++ [c]) = [cs ++ [c]] := by
  induction cs generalizing p with
  | nil => exact cut_cons_eq.mpr ⟨hc, rfl⟩
  | cons d cs ih =>
    obtain ⟨hd, hrest⟩ := cut_cons_eq.mp h
    exact cut_cons_eq.mpr ⟨hd, ih hrest hc⟩

/-- A text has no separator, or a first one. -/
theorem unparted_or_parted (cs : Chars) :
    Unparted cs ∨ ∃ before after, cs = before ++ ';' :: after ∧ Unparted before ∧
      (placeAfter before).atTop = true := by
  induction cs using List.reverseRecOn with
  | nil => exact .inl rfl
  | append_singleton cs c ih =>
    rcases ih with hu | ⟨before, after, rfl, hu, htop⟩
    · by_cases hc : c = ';' ∧ (placeAfter cs).atTop = true
      · exact .inr ⟨cs, [], by rw [hc.1], hu, hc.2⟩
      · exact .inl (cut_concat hu hc)
    · exact .inr ⟨before, after ++ [c], by simp, hu, htop⟩

/-- A text is in one piece exactly if each of its semicolons is quoted or inside of a bracket. -/
theorem unparted_iff :
    Unparted cs ↔ ∀ before after, cs = before ++ ';' :: after → ¬ Outside before 0 := by
  constructor
  · rintro hu before after rfl ho
    have hparts := cut_append (p := {}) ((atTop_iff before).mpr ho) after
    rw [hu] at hparts
    have hlength := congrArg List.length hparts
    have hbefore := List.length_pos_of_ne_nil (cut_ne_nil {} before)
    have hafter := List.length_pos_of_ne_nil (cut_ne_nil (before.foldl Place.next {}) after)
    simp only [List.length_append, List.length_singleton] at hlength
    omega
  · intro h
    rcases unparted_or_parted cs with hu | ⟨before, after, hcs, -, htop⟩
    · exact hu
    · exact absurd ((atTop_iff before).mp htop) (h before after hcs)

/-- From the first separator on, what follows is read like a text of its own. -/
theorem parted_induction {motive : Chars → Prop}
    (unparted : ∀ cs, Unparted cs → motive cs)
    (parted : ∀ before after, Unparted before → (placeAfter before).atTop = true → motive after →
      motive (before ++ ';' :: after)) (cs : Chars) : motive cs := by
  induction hn : cs.length using Nat.strong_induction_on generalizing cs with
  | h n ih =>
    rcases unparted_or_parted cs with hu | ⟨before, after, rfl, hu, htop⟩
    · exact unparted cs hu
    · have hshorter : after.length < n := by
        simp only [← hn, List.length_append, List.length_cons]
        omega
      exact parted before after hu htop (ih after.length hshorter after rfl)

theorem Unparted.trimLeft (h : Unparted cs) : Unparted (trimLeft cs) := by
  induction cs with
  | nil => exact h
  | cons c cs ih =>
    unfold Text.trimLeft
    rw [List.dropWhile_cons]
    split
    · rename_i hc
      have hrest := (cut_cons_eq.mp h).2
      rw [next_blank hc] at hrest
      exact ih hrest
    · exact h

theorem Unparted.trim (h : Unparted cs) : Unparted (trim cs) := by
  obtain ⟨gap, -, hsplit⟩ := exists_blanks_after (Text.trimLeft cs)
  have hleft := h.trimLeft
  rw [Unparted, hsplit] at hleft
  exact cut_of_append hleft

theorem Unparted.segments (h : Unparted cs) :
    segments cs = if Text.trim cs = [] then [] else [Text.trim cs] := by
  rw [segments_eq, h]
  split <;> simp_all

theorem Unparted.segments_trim (h : Unparted cs) (hne : Text.trim cs ≠ []) :
    Statement.segments (Text.trim cs) = [Text.trim cs] := by
  rw [h.trim.segments, trim_trim, if_neg hne]

end Unparted

/-- A text that is its own only segment. -/
structure IsSegment (s : Chars) : Prop where
  nonempty : s ≠ []
  trimmed : trim s = s
  only : segments s = [s]

theorem Unparted.isSegment {cs s : Chars} (h : Unparted cs) (hs : s ∈ Statement.segments cs) :
    IsSegment s := by
  rw [h.segments] at hs
  split at hs
  · simp at hs
  · rename_i hne
    obtain rfl : s = Text.trim cs := by simpa using hs
    exact ⟨hne, trim_trim cs, h.segments_trim hne⟩

theorem isSegment_of_mem {cs s : Chars} (hs : s ∈ segments cs) : IsSegment s := by
  induction cs using parted_induction with
  | unparted cs hu => exact hu.isSegment hs
  | parted before after hu htop ih =>
    rw [segments_append htop] at hs
    rcases List.mem_append.mp hs with hb | ha
    · exact hu.isSegment hb
    · exact ih ha

theorem segments_join (cs : Chars) : segments (joinWith [';'] (segments cs)) = segments cs := by
  induction cs using parted_induction with
  | unparted cs hu =>
    rw [hu.segments]
    split
    · rfl
    · rename_i hne
      simpa [joinWith] using hu.segments_trim hne
  | parted before after hu htop ih =>
    rw [segments_append htop, hu.segments]
    split
    · exact ih
    · -- Trimming leaves the scan outside, so the semicolon that joins is a separator again.
      rename_i hne
      have hfirst := hu.segments_trim hne
      cases hrest : segments after with
      | nil => simpa [joinWith] using hfirst
      | cons s rest =>
        have hjoin : joinWith [';'] ([trim before] ++ s :: rest) =
            trim before ++ ';' :: joinWith [';'] (s :: rest) := by
          simp [joinWith]
        rw [hjoin, segments_append ((atTop_trim before).trans htop), hfirst, ← hrest, ih]

/-- What is left of a text without its separators, given the text before it. -/
def unseparated (before : Chars) : Chars → Chars
  | [] => []
  | c :: cs =>
    if c = ';' ∧ Outside before 0 then unseparated (before ++ [c]) cs
    else c :: unseparated (before ++ [c]) cs

theorem flatten_cut (before cs : Chars) :
    (cut (placeAfter before) cs).flatten = unseparated before cs := by
  induction cs generalizing before with
  | nil => rfl
  | cons c cs ih =>
    rw [cut, unseparated, ← ih, placeAfter_concat]
    simp only [← atTop_iff]
    split
    · rename_i hc
      rw [hc.1, Place.next_semicolon hc.2]
      rfl
    · obtain ⟨first, rest, hcut⟩ :=
        List.exists_cons_of_ne_nil (cut_ne_nil ((placeAfter before).next c) cs)
      simp [hcut]

/-- The characters of a text that are not blanks. -/
def ink (cs : Chars) : Chars := cs.filter (!isBlank ·)

theorem ink_append (cs ds : Chars) : ink (cs ++ ds) = ink cs ++ ink ds :=
  List.filter_append _ _

theorem ink_blanks {gap : Chars} (h : ∀ c ∈ gap, isBlank c = true) : ink gap = [] := by
  simpa [ink] using h

theorem ink_trim (cs : Chars) : ink (trim cs) = ink cs := by
  obtain ⟨lead, hl, hleft⟩ := exists_blanks cs
  obtain ⟨trail, ht, hright⟩ := exists_blanks_after (trimLeft cs)
  calc ink (trim cs) = ink lead ++ (ink (trim cs) ++ ink trail) := by
        rw [ink_blanks hl, ink_blanks ht, List.append_nil, List.nil_append]
    _ = ink (lead ++ (trim cs ++ trail)) := by rw [ink_append, ink_append]
    _ = ink cs := by rw [trim, ← hright, ← hleft]

theorem ink_flatten (pieces : List Chars) :
    ink ((pieces.map trim).filter (· ≠ [])).flatten = ink pieces.flatten := by
  induction pieces with
  | nil => rfl
  | cons piece pieces ih =>
    rw [List.map_cons, List.filter_cons, List.flatten_cons, ink_append, ← ih, ← ink_trim piece]
    split
    · rw [List.flatten_cons, ink_append]
    · rename_i hne
      have hnil : trim piece = [] := by simpa using hne
      rw [hnil]
      rfl

/-- A statement is parted at its separators and nowhere else: at each of them into the segments
before it and those after it, and without any it is one segment, or none if it is blank. Each of its
segments is one by itself, joined by semicolons they are parted in the same way, and but for blanks
they have all the text between the separators. -/
theorem segments_at_separators (cs : Chars) :
    (∀ s ∈ segments cs, s ≠ [] ∧ trim s = s ∧ segments s = [s]) ∧
    segments (joinWith [';'] (segments cs)) = segments cs ∧
    ink (segments cs).flatten = ink (unseparated [] cs) ∧
    (∀ before after, cs = before ++ ';' :: after → Outside before 0 →
      segments cs = segments before ++ segments after) ∧
    ((∀ before after, cs = before ++ ';' :: after → ¬ Outside before 0) →
      segments cs = if trim cs = [] then [] else [trim cs]) := by
  refine ⟨?_, segments_join cs, ?_, ?_, ?_⟩
  · intro s hs
    have h := isSegment_of_mem hs
    exact ⟨h.nonempty, h.trimmed, h.only⟩
  · rw [segments_eq, ink_flatten, ← flatten_cut]
    rfl
  · rintro before after rfl ho
    exact segments_append ((atTop_iff before).mpr ho) after
  · intro h
    exact (unparted_iff.mpr h).segments

/-- A semicolon after an escaped quote is quoted too, and one in a bracket that is open parts
nothing. -/
theorem segments_at_separators_quoted :
    "s = \"a;\\\";b\"".toList ∈ segments "s = \"a;\\\";b\" ; ); free(p[;])".toList ∧
    segments "s = \"a;\\\";b\"".toList = ["s = \"a;\\\";b\"".toList] ∧
    segments "s = \"a;\\\";b\" ; ); free(p[;])".toList =
      segments "s = \"a;\\\";b\" ".toList ++ segments " ); free(p[;])".toList ∧
    segments " free(p[;])".toList = ["free(p[;])".toList] := by
  have hmem : "s = \"a;\\\";b\"".toList ∈
      segments "s = \"a;\\\";b\" ; ); free(p[;])".toList := by decide
  obtain ⟨hsegments, -, -, hparted, -⟩ :=
    segments_at_separators "s = \"a;\\\";b\" ; ); free(p[;])".toList
  obtain ⟨-, -, -, -, hunparted⟩ := segments_at_separators " free(p[;])".toList
  exact ⟨hmem, (hsegments _ hmem).2.2, hparted _ _ rfl (by decide),
    hunparted (unparted_iff.mp (by unfold Unparted; decide))⟩

example : unseparated [] "f(a; b); ]; c = ';';".toList = "f(a; b) ] c = ';'".toList := by decide

end HeapAudit.Statement
