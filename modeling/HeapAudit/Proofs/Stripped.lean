import HeapAudit.Proofs.CommentScan

namespace HeapAudit.Comment
open Text

/-- A text without line comments and without blocks that end. -/
structure Bare (cs : Chars) : Prop where
  slashes : ∀ rest, ¬('/' :: '/' :: rest <:+ cs)
  blocks : ∀ rest, '/' :: '*' :: rest <:+ cs → blockEnd? rest = none

theorem dropLineComments_of_bare {cs : Chars} (h : ∀ rest, ¬('/' :: '/' :: rest <:+ cs)) :
    dropLineComments cs = cs := by
  induction cs using slashes_induction with
  | nil => rfl
  | slashes cs ih => exact absurd (List.suffix_refl _) (h cs)
  | cons c cs hc ih =>
    rw [dropLineComments_cons hc, ih]
    intro rest hr
    exact h rest (hr.trans (List.suffix_cons ..))

theorem dropBlockComments_of_bare {cs : Chars}
    (h : ∀ rest, '/' :: '*' :: rest <:+ cs → blockEnd? rest = none) :
    dropBlockComments cs = cs := by
  induction cs using blocks_induction with
  | nil => exact dropBlockComments_nil
  | block rest body after he ih =>
    rw [h rest (List.suffix_refl _)] at he
    cases he
  | unclosed rest he => exact dropBlockComments_unclosed he
  | cons c cs hc ih =>
    rw [dropBlockComments_cons hc, ih]
    intro rest hr
    exact h rest (hr.trans (List.suffix_cons ..))

theorem Bare.stripChars_eq {cs : Chars} (h : Bare cs) : stripChars cs = cs := by
  rw [stripChars, dropLineComments_of_bare h.slashes, dropBlockComments_of_bare h.blocks]

/-- The newlines of a block are no part of what comes after it. -/
theorem suffix_newlines {c : Char} (hc : c ≠ '\n') {rest cs : Chars} (body : Chars)
    (h : c :: rest <:+ body.filter (· = '\n') ++ cs) : c :: rest <:+ cs := by
  induction body with
  | nil => exact h
  | cons d body ih =>
    by_cases hd : d = '\n'
    · rw [List.filter_cons_of_pos (by simp [hd]), List.cons_append, List.suffix_cons_iff] at h
      rcases h with he | h
      · exact absurd ((List.cons.inj he).1.trans hd) hc
      · exact ih h
    · rw [List.filter_cons_of_neg (by simp [hd])] at h
      exact ih h

/-- Where no slash comes first no block opens, so what comes first stays. -/
theorem head_dropBlockComments {cs : Chars} (h : cs.head? ≠ some '/') :
    (dropBlockComments cs).head? = cs.head? := by
  cases cs with
  | nil => rw [dropBlockComments_nil]
  | cons c cs =>
    rw [dropBlockComments_cons, List.head?_cons, List.head?_cons]
    rintro ⟨rfl, -⟩
    exact h rfl

theorem head_ne_slash {cs : Chars} (h : ∀ rest, ¬('/' :: '/' :: rest <:+ '/' :: cs)) :
    cs.head? ≠ some '/' := by
  intro hs
  obtain ⟨rest, rfl⟩ := List.head?_eq_some_iff.mp hs
  exact h rest (List.suffix_refl _)

/-- The seams of the blocks make no new comments: neither of the characters that a block brings
together is a slash, for two slashes in a row went with the line comments. -/
theorem bare_dropBlockComments {cs : Chars} (h : ∀ rest, ¬('/' :: '/' :: rest <:+ cs)) :
    Bare (dropBlockComments cs) := by
  induction cs using blocks_induction with
  | nil =>
    rw [dropBlockComments_nil]
    exact ⟨by simp, by simp⟩
  | block rest body after he ih =>
    have hafter : after <:+ '/' :: '*' :: rest := by
      rw [(blockEnd?_some he).1]
      exact ⟨'/' :: '*' :: body ++ ['*', '/'], by simp⟩
    have hbare := ih fun more hm => h more (hm.trans hafter)
    rw [dropBlockComments_block he]
    refine ⟨?_, ?_⟩
    · intro more hm
      exact hbare.slashes more (suffix_newlines (by decide) body hm)
    · intro more hm
      exact hbare.blocks more (suffix_newlines (by decide) body hm)
  | unclosed rest he =>
    rw [dropBlockComments_unclosed he]
    refine ⟨h, ?_⟩
    -- Any other opening comes later, so there is no end after it either.
    intro more hm
    rcases List.suffix_cons_iff.mp hm with hsame | hm
    · simp only [List.cons.injEq, true_and] at hsame
      rw [hsame]
      exact he
    · rcases List.suffix_cons_iff.mp hm with hslash | hm
      · simp at hslash
      · exact blockEnd?_suffix he (List.IsSuffix.trans ⟨['/', '*'], rfl⟩ hm)
  | cons c cs hc ih =>
    have hbare := ih fun rest hr => h rest (hr.trans (List.suffix_cons ..))
    rw [dropBlockComments_cons hc]
    refine ⟨?_, ?_⟩
    · intro rest hr
      rcases List.suffix_cons_iff.mp hr with he | hr
      · obtain ⟨rfl, hkept⟩ := List.cons.inj he
        have hhead := head_dropBlockComments (head_ne_slash h)
        rw [← hkept] at hhead
        exact head_ne_slash h hhead.symm
      · exact hbare.slashes rest hr
    · intro rest hr
      rcases List.suffix_cons_iff.mp hr with he | hr
      · obtain ⟨rfl, hkept⟩ := List.cons.inj he
        have hhead := head_dropBlockComments (head_ne_slash h)
        rw [← hkept] at hhead
        exact absurd ⟨rfl, hhead.symm⟩ hc
      · exact hbare.blocks rest hr

theorem bare_stripChars (cs : Chars) : Bare (stripChars cs) := by
  apply bare_dropBlockComments
  intro rest hr
  apply no_slashes_dropLineComments cs
  exact List.IsInfix.trans ⟨[], rest, rfl⟩ hr.isInfix

/-- A stripped text has no two slashes in a row and no block that ends, so stripping it again
changes nothing. -/
theorem strip_bare (code : String) :
    ¬['/', '/'] <:+: (strip code).toList ∧
      (∀ before body after,
        (strip code).toList ≠ before ++ '/' :: '*' :: (body ++ '*' :: '/' :: after)) ∧
      strip (strip code) = strip code := by
  have hbare : Bare (strip code).toList := by
    rw [strip, String.toList_ofList]
    exact bare_stripChars code.toList
  refine ⟨?_, ?_, ?_⟩
  · rintro ⟨before, after, he⟩
    apply hbare.slashes after
    exact ⟨before, by simpa using he⟩
  · intro before body after he
    have hnone := hbare.blocks (body ++ '*' :: '/' :: after) ⟨before, he.symm⟩
    have hend := blockEnd?_suffix hnone (List.suffix_append body _)
    cases hend
  · rw [strip, hbare.stripChars_eq, String.ofList_toList]

end HeapAudit.Comment
