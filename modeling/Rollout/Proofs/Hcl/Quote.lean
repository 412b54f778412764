import Rollout.Hcl.Basic

/-!
# Quoted texts in HCL

A quoted text is read from the left: a backslash and the character after it stand for one
character, a doubled dollar or percent sign before a brace for one sign and the brace, and every
other character for itself. Reading what is written for a text gives back the text, and it stops at
the closing quote, so that a quoted text is told apart from whatever follows it.
-/

namespace Rollout.Hcl

variable {c d e : Char} {s t inner rest before after : List Char}

/-! ### Reading -/

/-- The character that a backslash and the one after it stand for. -/
def unescaped? : Char → Option Char
  | '"' => some '"'
  | '\\' => some '\\'
  | 'n' => some '\n'
  | 'r' => some '\r'
  | 't' => some '\t'
  | _ => none

/-- Put characters before a text that was read. -/
def prepend (cs : List Char) (read : Option (List Char × List Char)) :
    Option (List Char × List Char) :=
  read.map fun (s, rest) => (cs ++ s, rest)

/-- Read from behind an opening quote: what stands before the closing quote denotes, and what
follows that quote. There is no such text if before it a line ends, a tab stands or a template
opens. -/
def readQuoted : List Char → Option (List Char × List Char)
  | '"' :: rest => some ([], rest)
  | '\\' :: e :: rest => (unescaped? e).bind fun c => prepend [c] (readQuoted rest)
  | '$' :: '$' :: '\x7b' :: rest => prepend ['$', '\x7b'] (readQuoted rest)
  | '%' :: '%' :: '\x7b' :: rest => prepend ['%', '\x7b'] (readQuoted rest)
  | '$' :: '\x7b' :: _ | '%' :: '\x7b' :: _ => none
  | '\\' :: _ | '\n' :: _ | '\r' :: _ | '\t' :: _ => none
  | c :: rest => prepend [c] (readQuoted rest)
  | [] => none

theorem prepend_eq_some_iff {cs : List Char} {read : Option (List Char × List Char)} :
    prepend cs read = some (s, rest) ↔ ∃ t, read = some (t, rest) ∧ s = cs ++ t := by
  rw [prepend, Option.map_eq_some_iff]
  constructor
  · rintro ⟨⟨t, rest'⟩, hread, heq⟩
    obtain ⟨rfl, rfl⟩ := Prod.mk.inj heq
    exact ⟨t, hread, rfl⟩
  · rintro ⟨t, hread, rfl⟩
    exact ⟨(t, rest), hread, rfl⟩

/-- The signs that open a template before a brace. -/
def isSigil (c : Char) : Bool := c = '$' || c = '%'

/-- The characters that stand for themselves nowhere inside of quotes. -/
def isSpecial (c : Char) : Bool := c ∈ ['"', '\\', '\n', '\r', '\t']

theorem isSigil_iff : isSigil c = true ↔ c = '$' ∨ c = '%' := by simp [isSigil]

theorem isSpecial_eq_false_iff :
    isSpecial c = false ↔ c ≠ '"' ∧ c ≠ '\\' ∧ c ≠ '\n' ∧ c ≠ '\r' ∧ c ≠ '\t' := by
  simp [isSpecial]

theorem isSpecial_of_isSigil (h : isSigil c = true) : isSpecial c = false := by
  obtain rfl | rfl := isSigil_iff.mp h <;> rfl

/-- A character that stands for itself before others: it is not special, opens no template and
keeps none from opening. -/
structure IsPlain (c : Char) (rest : List Char) : Prop where
  notSpecial : isSpecial c = false
  notOpening : isSigil c = true → ∀ t, rest ≠ '\x7b' :: t
  notDoubled : isSigil c = true → ∀ t, rest ≠ c :: '\x7b' :: t

theorem readQuoted_of_isPlain (h : IsPlain c rest) :
    readQuoted (c :: rest) = prepend [c] (readQuoted rest) := by
  obtain ⟨hquote, hback, hline, hreturn, htab⟩ := isSpecial_eq_false_iff.mp h.notSpecial
  rw [readQuoted]
  · exact hquote
  · exact fun _ _ hc _ => hback hc
  · rintro t rfl
    exact h.notDoubled rfl t
  · rintro t rfl
    exact h.notDoubled rfl t
  · rintro t rfl
    exact h.notOpening rfl t
  · rintro t rfl
    exact h.notOpening rfl t
  · exact hback
  · exact hline
  · exact hreturn
  · exact htab

theorem readQuoted_doubled (h : isSigil c = true) :
    readQuoted (c :: c :: '\x7b' :: rest) = prepend [c, '\x7b'] (readQuoted rest) := by
  obtain rfl | rfl := isSigil_iff.mp h <;> rfl

theorem readQuoted_escaped (h : unescaped? e = some c) :
    readQuoted ('\\' :: e :: rest) = prepend [c] (readQuoted rest) := by
  rw [readQuoted, h, Option.bind_some]

/-! ### Writing -/

/-- What is written for the first character of a text: an escape, a doubled sign together with
the brace that follows, or the character itself. -/
inductive QuotedHead (c : Char) (s : List Char) : Prop where
  | escaped (e : Char) (he : unescaped? e = some c)
    (h : quotedChars (c :: s) = '\\' :: e :: quotedChars s)
  | doubled (t : List Char) (hc : isSigil c = true) (hs : s = '\x7b' :: t)
    (h : quotedChars (c :: s) = c :: c :: '\x7b' :: quotedChars t)
  | plain (hc : isSpecial c = false) (hs : isSigil c = true → s.head? ≠ some '\x7b')
    (h : quotedChars (c :: s) = c :: quotedChars s)

theorem quotedHead (c : Char) (s : List Char) : QuotedHead c s := by
  cases hspecial : isSpecial c with
  | true =>
    have hc : c = '"' ∨ c = '\\' ∨ c = '\n' ∨ c = '\r' ∨ c = '\t' := by
      simpa [isSpecial] using hspecial
    obtain rfl | rfl | rfl | rfl | rfl := hc
    · exact .escaped '"' rfl rfl
    · exact .escaped '\\' rfl rfl
    · exact .escaped 'n' rfl rfl
    · exact .escaped 'r' rfl rfl
    · exact .escaped 't' rfl rfl
  | false =>
    by_cases hopen : isSigil c = true ∧ s.head? = some '\x7b'
    · obtain ⟨hc, hs⟩ := hopen
      obtain ⟨t, rfl⟩ := List.head?_eq_some_iff.mp hs
      refine .doubled t hc rfl ?_
      obtain rfl | rfl := isSigil_iff.mp hc <;> rfl
    · have hs : isSigil c = true → s.head? ≠ some '\x7b' := fun hc h => hopen ⟨hc, h⟩
      refine .plain hspecial hs ?_
      have hself : quotedChar c s.head? = [c] := by
        unfold quotedChar
        split <;> simp_all [isSpecial, isSigil]
      rw [quotedChars, hself, List.singleton_append]

/-- A brace is written for a brace alone. -/
theorem head?_of_quotedChars (h : quotedChars s ++ '"' :: rest = '\x7b' :: t) :
    s.head? = some '\x7b' := by
  cases s with
  | nil => exact absurd (List.cons.inj h).1 (by decide)
  | cons c s =>
    cases quotedHead c s with
    | escaped e he hwritten =>
      rw [hwritten] at h
      exact absurd (List.cons.inj h).1 (by decide)
    | doubled t' hc hs hwritten =>
      rw [hwritten] at h
      obtain ⟨rfl, -⟩ := List.cons.inj h
      exact absurd hc (by decide)
    | plain hc hs hwritten =>
      rw [hwritten] at h
      obtain ⟨rfl, -⟩ := List.cons.inj h
      rfl

/-- No template opens where a written text begins. -/
theorem quotedChars_ne_opening (hc : isSigil c = true) :
    quotedChars s ++ '"' :: rest ≠ c :: '\x7b' :: t := by
  intro h
  have hbrace : isSigil '\x7b' = false := by decide
  cases s with
  | nil =>
    obtain ⟨rfl, -⟩ := List.cons.inj h
    exact absurd hc (by decide)
  | cons d s =>
    cases quotedHead d s with
    | escaped e he hwritten =>
      rw [hwritten] at h
      obtain ⟨rfl, -⟩ := List.cons.inj h
      exact absurd hc (by decide)
    | doubled t' hd hs hwritten =>
      rw [hwritten] at h
      obtain ⟨rfl, -⟩ := List.cons.inj (List.cons.inj h).2
      exact absurd (hbrace.symm.trans hd) (by decide)
    | plain hd hs hwritten =>
      rw [hwritten] at h
      obtain ⟨rfl, hrest⟩ := List.cons.inj h
      exact hs hc (head?_of_quotedChars hrest)

/-- Reading takes just what was written for a text, up to its closing quote. -/
theorem readQuoted_quotedChars (s rest : List Char) :
    readQuoted (quotedChars s ++ '"' :: rest) = some (s, rest) := by
  induction s with
  | nil => rfl
  | cons c s ih =>
    cases quotedHead c s with
    | escaped e he hwritten =>
      rw [hwritten, List.cons_append, List.cons_append, readQuoted_escaped he, ih]
      rfl
    | doubled t hc hs hwritten =>
      -- the brace belongs to the sign here, and the rest is read as behind a brace alone
      subst hs
      have hbrace : IsPlain '\x7b' (quotedChars t ++ '"' :: rest) := ⟨by decide, nofun, nofun⟩
      have ht : quotedChars ('\x7b' :: t) = '\x7b' :: quotedChars t := rfl
      rw [ht, List.cons_append, readQuoted_of_isPlain hbrace, prepend_eq_some_iff] at ih
      obtain ⟨t', hread, heq⟩ := ih
      obtain ⟨-, rfl⟩ := List.cons.inj heq
      rw [hwritten, List.cons_append, List.cons_append, List.cons_append, readQuoted_doubled hc,
        hread]
      rfl
    | plain hc hs hwritten =>
      have hplain : IsPlain c (quotedChars s ++ '"' :: rest) :=
        ⟨hc, fun hsigil _ h => hs hsigil (head?_of_quotedChars h),
          fun hsigil _ => quotedChars_ne_opening hsigil⟩
      rw [hwritten, List.cons_append, readQuoted_of_isPlain hplain, ih]
      rfl

/-- Quoted texts that are followed by something are told apart. -/
theorem quoteChars_append_inj {a b : String}
    (h : quoteChars a ++ s = quoteChars b ++ t) : a = b ∧ s = t := by
  simp only [quoteChars, List.cons_append, List.append_assoc] at h
  have hread := congrArg readQuoted (List.cons.inj h).2
  rw [List.nil_append, readQuoted_quotedChars, readQuoted_quotedChars] at hread
  obtain ⟨hab, hst⟩ := Prod.mk.inj (Option.some.inj hread)
  exact ⟨String.toList_inj.mp hab, hst⟩

/-! ### Well-formed literals -/

/-- How many backslashes stand at the end. -/
def backslashes (s : List Char) : Nat := (s.reverse.takeWhile (· = '\\')).length

/-- The inside of a quoted text: no line ends and no tab stands in it, every quote has an escaping
backslash before it, and every brace behind a dollar or percent sign has that sign twice. -/
structure WellQuoted (inner : List Char) : Prop where
  noBreak : '\n' ∉ inner ∧ '\r' ∉ inner ∧ '\t' ∉ inner
  noQuote : ∀ before after, inner = before ++ '"' :: after → backslashes before % 2 = 1
  noTemplate : ∀ before after c, isSigil c = true → inner = before ++ c :: '\x7b' :: after →
    before.getLast? = some c

theorem backslashes_cons (hc : c ≠ '\\') (s : List Char) :
    backslashes (c :: s) = backslashes s := by
  rw [backslashes, List.reverse_cons, List.takeWhile_append]
  split <;> simp_all [backslashes]

theorem backslashes_escape (e : Char) (s : List Char) :
    backslashes ('\\' :: e :: s) % 2 = backslashes s % 2 := by
  rw [backslashes, List.reverse_cons, List.reverse_cons, List.append_assoc, List.takeWhile_append]
  by_cases he : e = '\\'
  · split <;> simp_all [backslashes]
  · split <;> simp_all [backslashes]

theorem wellQuoted_nil : WellQuoted [] where
  noBreak := ⟨List.not_mem_nil, List.not_mem_nil, List.not_mem_nil⟩
  noQuote := by simp
  noTemplate := by simp

namespace WellQuoted

theorem plain (h : WellQuoted inner) (hc : IsPlain c (inner ++ '"' :: rest)) :
    WellQuoted (c :: inner) := by
  obtain ⟨hquote, hback, hline, hreturn, htab⟩ := isSpecial_eq_false_iff.mp hc.notSpecial
  constructor
  · simp [h.noBreak, hline.symm, hreturn.symm, htab.symm]
  · intro before after heq
    cases before with
    | nil => exact absurd (List.cons.inj heq).1 hquote
    | cons b before =>
      obtain ⟨rfl, hinner⟩ := List.cons.inj heq
      rw [backslashes_cons hback]
      exact h.noQuote before after hinner
  · intro before after d hd heq
    cases before with
    | nil =>
      obtain ⟨rfl, rfl⟩ := List.cons.inj heq
      exact absurd rfl (hc.notOpening hd _)
    | cons b before =>
      obtain ⟨rfl, hinner⟩ := List.cons.inj heq
      rw [List.getLast?_cons, h.noTemplate before after d hd hinner, Option.getD_some]

theorem escaped (h : WellQuoted inner) (he : unescaped? e = some c) :
    WellQuoted ('\\' :: e :: inner) := by
  have hsign : e ∈ ['"', '\\', 'n', 'r', 't'] := by
    unfold unescaped? at he
    split at he <;> simp_all
  constructor
  · have hne : e ≠ '\n' ∧ e ≠ '\r' ∧ e ≠ '\t' := by
      refine ⟨?_, ?_, ?_⟩ <;> rintro rfl <;> simp at hsign
    simp [h.noBreak, hne.1.symm, hne.2.1.symm, hne.2.2.symm]
  · intro before after heq
    match before, heq with
    | [], heq => exact absurd (List.cons.inj heq).1 (by decide)
    | [b], heq =>
      obtain ⟨rfl, -⟩ := List.cons.inj heq
      rfl
    | b :: f :: before, heq =>
      simp only [List.cons_append, List.cons.injEq] at heq
      obtain ⟨rfl, rfl, hinner⟩ := heq
      rw [backslashes_escape]
      exact h.noQuote before after hinner
  · intro before after d hd heq
    match before, heq with
    | [], heq =>
      obtain ⟨rfl, -⟩ := List.cons.inj heq
      exact absurd hd (by decide)
    | [b], heq =>
      simp only [List.cons_append, List.cons.injEq, List.nil_append] at heq
      obtain ⟨-, rfl, -⟩ := heq
      obtain rfl | rfl := isSigil_iff.mp hd <;> simp at hsign
    | b :: f :: before, heq =>
      simp only [List.cons_append, List.cons.injEq] at heq
      obtain ⟨rfl, rfl, hinner⟩ := heq
      rw [List.getLast?_cons, List.getLast?_cons, h.noTemplate before after d hd hinner,
        Option.getD_some, Option.getD_some]

theorem doubled (h : WellQuoted inner) (hc : isSigil c = true) :
    WellQuoted (c :: c :: '\x7b' :: inner) := by
  obtain ⟨hquote, hback, hline, hreturn, htab⟩ :=
    isSpecial_eq_false_iff.mp (isSpecial_of_isSigil hc)
  constructor
  · simp [h.noBreak, hline.symm, hreturn.symm, htab.symm]
  · intro before after heq
    match before, heq with
    | [], heq => exact absurd (List.cons.inj heq).1 hquote
    | [b], heq => exact absurd (List.cons.inj (List.cons.inj heq).2).1 hquote
    | [b, f], heq =>
      simp only [List.cons_append, List.cons.injEq, List.nil_append] at heq
      exact absurd heq.2.2.1 (by decide)
    | b :: f :: g :: before, heq =>
      simp only [List.cons_append, List.cons.injEq] at heq
      obtain ⟨rfl, rfl, rfl, hinner⟩ := heq
      rw [backslashes_cons hback, backslashes_cons hback, backslashes_cons (by decide)]
      exact h.noQuote before after hinner
  · intro before after d hd heq
    match before, heq with
    | [], heq =>
      simp only [List.nil_append, List.cons.injEq] at heq
      obtain ⟨-, rfl, -⟩ := heq
      exact absurd hc (by decide)
    | [b], heq =>
      simp only [List.cons_append, List.cons.injEq, List.nil_append] at heq
      obtain ⟨rfl, rfl, -⟩ := heq
      rfl
    | [b, f], heq =>
      simp only [List.cons_append, List.cons.injEq, List.nil_append] at heq
      obtain ⟨-, -, rfl, -⟩ := heq
      exact absurd hd (by decide)
    | b :: f :: g :: before, heq =>
      simp only [List.cons_append, List.cons.injEq] at heq
      obtain ⟨rfl, rfl, rfl, hinner⟩ := heq
      rw [List.getLast?_cons, List.getLast?_cons, List.getLast?_cons,
        h.noTemplate before after d hd hinner]
      rfl

end WellQuoted

/-- Only what is well quoted can be read. -/
theorem wellQuoted_of_readQuoted (h : readQuoted t = some (s, rest)) :
    ∃ inner, t = inner ++ '"' :: rest ∧ WellQuoted inner := by
  fun_induction readQuoted t generalizing s with
  | case1 rest' =>
    obtain ⟨rfl, rfl⟩ := Prod.mk.inj (Option.some.inj h)
    exact ⟨[], rfl, wellQuoted_nil⟩
  | case2 e t ih =>
    obtain ⟨c, he, hread⟩ := Option.bind_eq_some_iff.mp h
    obtain ⟨u, hu, -⟩ := prepend_eq_some_iff.mp hread
    obtain ⟨inner, rfl, hinner⟩ := ih hu
    exact ⟨_, rfl, hinner.escaped he⟩
  | case3 t ih | case4 t ih =>
    obtain ⟨u, hu, -⟩ := prepend_eq_some_iff.mp h
    obtain ⟨inner, rfl, hinner⟩ := ih hu
    exact ⟨_, rfl, hinner.doubled rfl⟩
  | case11 c t hquote _ hdollar hpercent hdollar' hpercent' hback hline hreturn htab ih =>
    obtain ⟨u, hu, -⟩ := prepend_eq_some_iff.mp h
    obtain ⟨inner, rfl, hinner⟩ := ih hu
    have hplain : IsPlain c (inner ++ '"' :: rest) := by
      refine ⟨isSpecial_eq_false_iff.mpr ⟨hquote, hback, hline, hreturn, htab⟩, ?_, ?_⟩
      all_goals
        intro hc t ht
        obtain rfl | rfl := isSigil_iff.mp hc
      · exact hdollar' t rfl ht
      · exact hpercent' t rfl ht
      · exact hdollar t rfl ht
      · exact hpercent t rfl ht
    exact ⟨_, rfl, hinner.plain hplain⟩
  | case5 | case6 | case7 | case8 | case9 | case10 | case12 => exact nomatch h

/-- What is written for a text is a literal of it: well quoted between its quotes, and read from the
left it is that text. -/
theorem quote_denotes (s : String) : ∃ inner, (quote s).toList = '"' :: inner ++ ['"'] ∧
    WellQuoted inner ∧ readQuoted (inner ++ ['"']) = some (s.toList, []) := by
  have hread := readQuoted_quotedChars s.toList []
  obtain ⟨inner, hinner, hwell⟩ := wellQuoted_of_readQuoted hread
  obtain rfl := List.append_cancel_right hinner
  exact ⟨_, String.toList_ofList, hwell, hread⟩

/-- Signs in a row, an opening brace and a quote. -/
example : quote "$$\x7ba\x7d \"%\x7b\"" = "\"$$$\x7ba\x7d \\\"%%\x7b\\\"\"" := by decide

end Rollout.Hcl
