import HeapAudit.Proofs.CallocSizes

namespace HeapAudit.Statement
open Text

/-- No closing parenthesis is unmatched: at no point more of them are closed than are opened. -/
def Matched (cs : Chars) : Prop := ∀ start, start <+: cs → start.count ')' ≤ start.count '('

/-- The longest start of a text in which no closing parenthesis is unmatched. -/
structure LongestMatched (text start : Chars) : Prop where
  isPrefix : start <+: text
  matched : Matched start
  longest : ∀ other, other <+: text → Matched other → other <+: start

variable {cs inner : Chars}

theorem matched_nil : Matched [] := by
  intro start hs
  rw [List.prefix_nil.mp hs]
  simp

theorem Balanced.matched (h : Balanced cs) : Matched cs := h.2

/-- After matched text, only a parenthesis that closes what was never opened is unmatched. -/
theorem Matched.concat (h : Matched cs) {c : Char} (hc : ¬ (c = ')' ∧ Balanced cs)) :
    Matched (cs ++ [c]) := by
  intro start hs
  rcases List.prefix_concat_iff.mp hs with rfl | hs
  · have hcs := h cs List.prefix_rfl
    rw [List.count_append, List.count_append]
    by_cases hclose : c = ')'
    · have hopen : cs.count '(' ≠ cs.count ')' := fun he => hc ⟨hclose, he, h⟩
      rw [hclose, List.count_cons_self, List.count_nil]
      omega
    · rw [List.count_cons_of_ne hclose, List.count_nil]
      omega
  · exact h start hs

/-- A text is matched to its end, or up to a parenthesis that closes the call. -/
theorem matched_or_closed (cs : Chars) :
    Matched cs ∨ ∃ inner rest, Balanced inner ∧ cs = inner ++ ')' :: rest := by
  -- The text grows at its end: once the call is closed, it stays closed at the same place.
  induction cs using List.reverseRecOn with
  | nil => exact .inl matched_nil
  | append_singleton cs c ih =>
    rcases ih with hm | ⟨inner, rest, hb, rfl⟩
    · by_cases hc : c = ')' ∧ Balanced cs
      · exact .inr ⟨cs, [], hc.2, by rw [hc.1]⟩
      · exact .inl (hm.concat hc)
    · exact .inr ⟨inner, rest ++ [c], hb, by simp⟩

theorem Balanced.not_matched (h : Balanced inner) (rest : Chars) :
    ¬ Matched (inner ++ ')' :: rest) := by
  intro hm
  have hclosed := hm (inner ++ [')']) (by simp)
  simp [h.1] at hclosed

theorem Balanced.longestMatched (h : Balanced inner) (rest : Chars) :
    LongestMatched (inner ++ ')' :: rest) inner where
  isPrefix := List.prefix_append _ _
  matched := h.matched
  longest := by
    intro other hp hm
    rcases List.prefix_or_prefix_of_prefix hp (List.prefix_append inner _) with hin | ⟨more, rfl⟩
    · exact hin
    · have hmore := (List.prefix_append_right_inj inner).mp hp
      cases more with
      | nil => simp
      | cons c more =>
        obtain ⟨rfl, -⟩ := List.cons_prefix_cons.mp hmore
        exact absurd hm (h.not_matched more)

theorem Matched.longestMatched (h : Matched cs) : LongestMatched cs cs where
  isPrefix := List.prefix_rfl
  matched := h
  longest := fun _ hp _ => hp

theorem Matched.callArguments (h : Matched cs) : callArguments cs = trim cs := by
  have hpass := matchedFrom_append [] 0 [] (by simpa [Matched] using h)
  rw [List.append_nil, List.append_nil] at hpass
  rw [Statement.callArguments, hpass]
  simp [matchedFrom]

/-- The depth of the scan is the number of parentheses that are open. -/
theorem foldl_push_depth (s : Listing) (cs : Chars) :
    (cs.foldl Listing.push s).depth = s.depth + level cs := by
  induction cs generalizing s with
  | nil => simp
  | cons c cs ih =>
    rw [List.foldl_cons, ih, level_cons, Listing.push]
    split
    · rename_i hc
      simp [hc.1]
    · rfl

theorem Matched.depth_nonneg (h : Matched cs) {start : Chars} (hs : start <+: cs) :
    0 ≤ (start.foldl Listing.push {}).depth := by
  have hle := h start hs
  rw [foldl_push_depth]
  change 0 ≤ 0 + level start
  unfold level
  omega

theorem Matched.trim (h : Matched cs) : Matched (trim cs) := by
  obtain ⟨lead, hl, hleft⟩ := exists_blanks cs
  obtain ⟨trail, -, hright⟩ := exists_blanks_after (trimLeft cs)
  intro start hs
  have hwhole : lead ++ start <+: cs := by
    rw [hleft, hright]
    exact (List.prefix_append_right_inj lead).mpr (hs.trans (List.prefix_append _ _))
  have hnone : ∀ c, isBlank c = false → lead.count c = 0 := by
    intro c hc
    refine List.count_eq_zero.mpr fun hm => ?_
    simp [hl c hm] at hc
  have hle := h _ hwhole
  simpa [List.count_append, hnone '(' (by decide), hnone ')' (by decide)] using hle

theorem argumentList_space (cs : Chars) : argumentList (' ' :: cs) = argumentList cs := by
  obtain ⟨first, rest, hp⟩ := List.exists_cons_of_ne_nil (parts_ne_nil 0 cs)
  have hspace : parts 0 (' ' :: cs) = (' ' :: first) :: rest := by
    change (parts 0 cs).modifyHead _ = _
    rw [hp]
    rfl
  have htrim : Text.trim (' ' :: first) = Text.trim first := rfl
  rw [argumentList_eq, argumentList_eq, hspace, hp, List.map_cons, List.map_cons, htrim]

/-- The first of the arguments ends at the first comma outside of parentheses. -/
theorem argumentList_cons (hb : Balanced cs) (hc : CommasInside cs) (rest : Chars) :
    argumentList (cs ++ ", ".toList ++ rest) = Text.trim cs :: argumentList rest := by
  have hcomma : cs ++ ", ".toList ++ rest = cs ++ ',' :: ' ' :: rest := by simp
  rw [hcomma, argumentList_eq, hc.parts_comma hb.level_eq, List.map_cons, ← argumentList_eq,
    argumentList_space]

theorem argumentList_join {arguments : List Chars} (hne : arguments ≠ [])
    (h : ∀ a ∈ arguments, Text.trim a = a ∧ Balanced a ∧ CommasInside a) :
    argumentList (joinWith ", ".toList arguments) = arguments := by
  induction arguments with
  | nil => exact absurd rfl hne
  | cons a rest ih =>
    obtain ⟨htrim, hb, hc⟩ := h a List.mem_cons_self
    cases rest with
    | nil => simp [joinWith, argumentList_eq, hc.parts_self, htrim]
    | cons b rest =>
      have hrest := ih (List.cons_ne_nil b rest) fun d hd => h d (List.mem_cons_of_mem a hd)
      have hjoin : joinWith ", ".toList (a :: b :: rest) =
          a ++ ", ".toList ++ joinWith ", ".toList (b :: rest) := by
        simp [joinWith]
      rw [hjoin, argumentList_cons hb hc, htrim, hrest]

/-- The arguments of a call are read up to the parenthesis that closes it, or to the end of the text
if none does; what is read is parted at no depth below zero; and a written list of arguments is
parted into them. -/
theorem arguments_read_and_parted :
    (∀ (text : Chars) (position : Nat), ∃ inner,
      callArguments (text.drop position) = trim inner ∧
      LongestMatched (text.drop position) inner ∧
      (Matched (text.drop position) → inner = text.drop position) ∧
      (¬ Matched (text.drop position) →
        Balanced inner ∧ inner ++ [')'] <+: text.drop position) ∧
      ∀ start, start <+: callArguments (text.drop position) →
        0 ≤ (start.foldl Listing.push {}).depth) ∧
    ∀ arguments : List Chars, arguments ≠ [] →
      (∀ a ∈ arguments, trim a = a ∧ Balanced a ∧ CommasInside a) →
      argumentList (joinWith ", ".toList arguments) = arguments := by
  refine ⟨?_, fun arguments => argumentList_join⟩
  intro text position
  rcases matched_or_closed (text.drop position) with hm | ⟨inner, rest, hb, hsplit⟩
  · refine ⟨text.drop position, hm.callArguments, hm.longestMatched, fun _ => rfl, ?_, ?_⟩
    · exact fun hn => absurd hm hn
    · rw [hm.callArguments]
      exact fun _ => hm.trim.depth_nonneg
  · have hread := callArguments_append hb rest
    rw [← hsplit] at hread
    refine ⟨inner, hread, hsplit ▸ hb.longestMatched rest, ?_, ?_, ?_⟩
    · exact fun hm => absurd (hsplit ▸ hm) (hb.not_matched rest)
    · exact fun _ => ⟨hb, by simp [hsplit]⟩
    · rw [hread]
      exact fun _ => hb.matched.trim.depth_nonneg

/-- A call inside of a call, and a list with an empty argument and with a comma inside of
parentheses. -/
theorem arguments_read_and_parted_nested :
    (∃ inner, callArguments ("p = f( g(1, (2)) ) + h(3)".toList.drop 6) = trim inner ∧
      Balanced inner ∧ inner ++ [')'] <+: " g(1, (2)) ) + h(3)".toList) ∧
    argumentList (joinWith ", ".toList ["g(1, (2))".toList, [], "n".toList]) =
      ["g(1, (2))".toList, [], "n".toList] := by
  obtain ⟨hread, hparted⟩ := arguments_read_and_parted
  obtain ⟨inner, htrim, -, -, hclosed, -⟩ := hread "p = f( g(1, (2)) ) + h(3)".toList 6
  have hcall : Balanced " g(1, (2)) ".toList := by decide
  have hunmatched : ¬ Matched ("p = f( g(1, (2)) ) + h(3)".toList.drop 6) :=
    hcall.not_matched " + h(3)".toList
  exact ⟨⟨inner, htrim, hclosed hunmatched⟩, hparted _ (by simp) (by decide)⟩

end HeapAudit.Statement
