import OmniBridge.ClipboardManager
import Mathlib.Data.List.DropRight

/-! The body of a mirrored notification as it is handed to the server. A `str`
is the list of its characters. -/

namespace OmniBridge.Sink.Text

open List

def MAX_BODY_CHARS : Nat := 2000
def usizeMax : Nat := 2 ^ 64 - 1

def inRanges (ranges : List (Nat × Nat)) (c : Char) : Bool :=
  ranges.any (fun r => r.1 ≤ c.toNat ∧ c.toNat ≤ r.2)

def isFormatChar : Char → Bool := inRanges
  [(0xAD, 0xAD), (0x600, 0x605), (0x61C, 0x61C), (0x6DD, 0x6DD), (0x70F, 0x70F), (0x890, 0x891),
    (0x8E2, 0x8E2), (0x180E, 0x180E), (0x200B, 0x200F), (0x202A, 0x202E), (0x2060, 0x2064),
    (0x2066, 0x206F), (0xFEFF, 0xFEFF), (0xFFF9, 0xFFFB), (0x110BD, 0x110BD), (0x110CD, 0x110CD),
    (0x13430, 0x1343F), (0x1BCA0, 0x1BCA3), (0x1D173, 0x1D17A), (0xE0001, 0xE0001),
    (0xE0020, 0xE007F)]

def isWhitespace : Char → Bool := inRanges
  [(0x9, 0xD), (0x20, 0x20), (0x85, 0x85), (0xA0, 0xA0), (0x1680, 0x1680), (0x2000, 0x200A),
    (0x2028, 0x2029), (0x202F, 0x202F), (0x205F, 0x205F), (0x3000, 0x3000)]

def truncateChars (value : List Char) (max : Nat) : List Char :=
  if value.length ≤ max then value else value.take (max - 1) ++ ['…']

def isShown (c : Char) : Bool := (!Clipboard.isControl c || c = '\n' || c = '\t') && !isFormatChar c

def sanitizeBlock (raw : List Char) (maxChars : Nat) : List Char :=
  truncateChars (((raw.filter isShown).dropWhile isWhitespace).rdropWhile isWhitespace) maxChars

def escape : Char → List Char
  | '&' => ['&', 'a', 'm', 'p', ';']
  | '<' => ['&', 'l', 't', ';']
  | '>' => ['&', 'g', 't', ';']
  | c => [c]

def escapeMarkup (value : List Char) : List Char := value.flatMap escape

def body (raw : List Char) (markup : Bool) : List Char :=
  let cleaned := sanitizeBlock raw usizeMax
  truncateChars (if markup then escapeMarkup cleaned else cleaned) MAX_BODY_CHARS

def unescape : List Char → List Char
  | '&' :: 'a' :: 'm' :: 'p' :: ';' :: s => '&' :: unescape s
  | '&' :: 'l' :: 't' :: ';' :: s => '<' :: unescape s
  | '&' :: 'g' :: 't' :: ';' :: s => '>' :: unescape s
  | c :: s => c :: unescape s
  | [] => []

/-- Every ampersand begins a complete entity. -/
def Entities (s : List Char) : Prop :=
  ∀ back, '&' :: back <:+ s → ['a', 'm', 'p', ';'] <+: back ∨ ['l', 't', ';'] <+: back ∨
    ['g', 't', ';'] <+: back

variable {c : Char} {s t : List Char}

theorem escape_cases (c : Char) :
    c = '&' ∨ c = '<' ∨ c = '>' ∨ (c ≠ '&' ∧ c ≠ '<' ∧ c ≠ '>') ∧ escape c = [c] := by
  unfold escape
  split <;> simp_all

theorem unescape_cons (h : c ≠ '&') (s : List Char) : unescape (c :: s) = c :: unescape s := by
  rw [unescape] <;> simp [h]

theorem escapeMarkup_cons (c : Char) (s : List Char) :
    escapeMarkup (c :: s) = escape c ++ escapeMarkup s :=
  flatMap_cons

theorem unescape_append (s t : List Char) : unescape (escapeMarkup s ++ t) = s ++ unescape t := by
  induction s with
  | nil => rfl
  | cons c s ih =>
    rw [escapeMarkup_cons, append_assoc]
    rcases escape_cases c with rfl | rfl | rfl | ⟨hc, he⟩
    · exact congrArg (cons _) ih
    · exact congrArg (cons _) ih
    · exact congrArg (cons _) ih
    · rw [he, singleton_append, unescape_cons hc.1, ih, cons_append]

theorem unescape_escapeMarkup (s : List Char) : unescape (escapeMarkup s) = s := by
  simpa [unescape] using unescape_append s []

theorem entities_escapeMarkup (s : List Char) : Entities (escapeMarkup s) := by
  induction s with
  | nil => simp [Entities, escapeMarkup]
  | cons c s ih =>
    intro back hback
    rw [escapeMarkup_cons] at hback
    rcases escape_cases c with rfl | rfl | rfl | ⟨hc, he⟩
    case inr.inr.inr =>
      rw [he, singleton_append, suffix_cons_iff] at hback
      exact ih back (hback.resolve_left (fun h => hc.1 (cons.inj h).1.symm))
    all_goals
      simp only [escape, cons_append, nil_append, suffix_cons_iff, cons.injEq, Char.reduceEq,
        true_and, false_and, false_or] at hback
      rcases hback with rfl | hback
      · simp
      · exact ih back hback

theorem Entities.suffix (hs : Entities s) (ht : t <:+ s) : Entities t :=
  fun back hback => hs back (hback.trans ht)

theorem escapeMarkup_unescape (hs : Entities s) (hlt : '<' ∉ s) (hgt : '>' ∉ s) :
    escapeMarkup (unescape s) = s := by
  fun_induction unescape s with
  | case1 s ih | case2 s ih | case3 s ih =>
    simp only [mem_cons, not_or] at hlt hgt
    have hrest := ih (hs.suffix (by simp [suffix_cons_iff])) (by tauto) (by tauto)
    rw [escapeMarkup_cons, hrest]
    rfl
  | case4 c s h1 h2 h3 ih =>
    simp only [mem_cons, not_or] at hlt hgt
    have hrest := ih (hs.suffix (suffix_cons c s)) hlt.2 hgt.2
    have hc : c ≠ '&' := by
      rintro rfl
      obtain ⟨u, rfl⟩ | ⟨u, rfl⟩ | ⟨u, rfl⟩ := hs s suffix_rfl
      · exact h1 u rfl rfl
      · exact h2 u rfl rfl
      · exact h3 u rfl rfl
    rw [escapeMarkup_cons, hrest]
    rcases escape_cases c with rfl | rfl | rfl | ⟨-, he⟩
    · exact absurd rfl hc
    · exact absurd rfl hlt.1
    · exact absurd rfl hgt.1
    · rw [he]
      rfl
  | case5 => rfl

theorem escapeMarkup_append (s t : List Char) :
    escapeMarkup (s ++ t) = escapeMarkup s ++ escapeMarkup t :=
  flatMap_append

theorem mem_truncateChars {n : Nat} (h : c ∈ truncateChars s n) : c ∈ s ∨ c = '…' := by
  unfold truncateChars at h
  split at h
  · exact .inl h
  · exact (mem_append.mp h).imp mem_of_mem_take mem_singleton.mp

theorem isShown_of_mem_sanitizeBlock {raw : List Char} {n : Nat} (h : c ∈ sanitizeBlock raw n) :
    isShown c := by
  rcases mem_truncateChars h with h | rfl
  · have hdrop := rdropWhile_prefix isWhitespace _ |>.subset h
    exact (mem_filter.mp ((dropWhile_sublist _).subset hdrop)).2
  · decide

theorem plain_of_mem_escapeMarkup (hs : ∀ d ∈ s, isShown d) (h : c ∈ escapeMarkup s) :
    c ≠ '<' ∧ c ≠ '>' ∧ isShown c := by
  obtain ⟨d, hd, hc⟩ := mem_flatMap.mp h
  rcases escape_cases d with rfl | rfl | rfl | ⟨hne, he⟩
  case inr.inr.inr =>
    rw [he] at hc
    obtain rfl := mem_singleton.mp hc
    exact ⟨hne.2.1, hne.2.2, hs c hd⟩
  all_goals
    clear h
    revert c
    rw [← forall_iff_forall_mem]
    decide

section Truncated

variable {n : Nat} (hlt : '<' ∉ truncateChars (escapeMarkup s) n)
  (hgt : '>' ∉ truncateChars (escapeMarkup s) n)
include hlt hgt

/-- The cut falls between two characters of the text. -/
theorem shown_of_entities (hlen : ¬ (escapeMarkup s).length ≤ n)
    (h : Entities (truncateChars (escapeMarkup s) n)) :
    ∃ shown rest, s = shown ++ rest ∧ (escapeMarkup shown).length = n - 1 ∧
      truncateChars (escapeMarkup s) n = escapeMarkup (shown ++ ['…']) := by
  have hcut : truncateChars (escapeMarkup s) n = (escapeMarkup s).take (n - 1) ++ ['…'] :=
    if_neg hlen
  have hsame := escapeMarkup_unescape h hlt hgt
  rcases eq_nil_or_concat (unescape (truncateChars (escapeMarkup s) n)) with hnil | ⟨shown, c, hc⟩
  · rw [hnil, hcut] at hsame
    simp [escapeMarkup] at hsame
  rw [hc, hcut, concat_eq_append, escapeMarkup_append] at hsame
  rcases escape_cases c with rfl | rfl | rfl | ⟨-, he⟩
  case inr.inr.inr =>
    rw [escapeMarkup_cons c, he] at hsame
    obtain ⟨hshown, hlast⟩ := append_inj' hsame rfl
    obtain rfl := (cons.inj hlast).1
    refine ⟨shown, unescape ((escapeMarkup s).drop (n - 1)), ?_, ?_, ?_⟩
    · rw [← unescape_append, hshown, take_append_drop, unescape_escapeMarkup]
    · rw [hshown, length_take]
      omega
    · rw [hcut, escapeMarkup_append, hshown]
      rfl
  all_goals exact absurd (congrArg getLast? hsame) (by simp [escapeMarkup, escape])

theorem entities_truncated_iff :
    Entities (truncateChars (escapeMarkup s) n) ↔ (escapeMarkup s).length ≤ n ∨ ∃ shown rest,
      s = shown ++ rest ∧ (escapeMarkup shown).length = n - 1 := by
  by_cases hlen : (escapeMarkup s).length ≤ n
  · rw [truncateChars, if_pos hlen]
    exact iff_of_true (entities_escapeMarkup s) (.inl hlen)
  constructor
  · intro h
    obtain ⟨shown, rest, hs, hshown, -⟩ := shown_of_entities hlt hgt hlen h
    exact .inr ⟨shown, rest, hs, hshown⟩
  · rintro (hle | ⟨shown, rest, rfl, hshown⟩)
    · exact absurd hle hlen
    have hent := entities_escapeMarkup (shown ++ ['…'])
    rw [escapeMarkup_append] at hent
    rwa [truncateChars, if_neg hlen, escapeMarkup_append, take_left' hshown]

theorem truncated_iff :
    Entities (truncateChars (escapeMarkup s) n) ∧ unescape (truncateChars (escapeMarkup s) n) <+:
      s ↔ (escapeMarkup s).length ≤ n ∨ ∃ shown rest, s = shown ++ '…' :: rest ∧
      (escapeMarkup shown).length = n - 1 := by
  by_cases hlen : (escapeMarkup s).length ≤ n
  · rw [truncateChars, if_pos hlen, unescape_escapeMarkup]
    exact iff_of_true ⟨entities_escapeMarkup s, prefix_rfl⟩ (.inl hlen)
  constructor
  · rintro ⟨hent, rest, hrest⟩
    obtain ⟨shown, -, -, hshown, htext⟩ := shown_of_entities hlt hgt hlen hent
    refine .inr ⟨shown, rest, ?_, hshown⟩
    rw [← hrest, htext, unescape_escapeMarkup]
    simp
  · rintro (hle | ⟨shown, rest, rfl, hshown⟩)
    · exact absurd hle hlen
    refine ⟨(entities_truncated_iff hlt hgt).mpr (.inr ⟨shown, _, rfl, hshown⟩), rest, ?_⟩
    have hcut : unescape (escapeMarkup shown ++ ['…']) = shown ++ ['…'] := unescape_append shown _
    rw [truncateChars, if_neg hlen, escapeMarkup_append, take_left' hshown, hcut]
    simp

end Truncated

/-- Escaping comes before the cut, so the cut can fall into an entity; where it does not, the
appended `…` must be the next character of the text for the body to read back as a prefix of it. -/
theorem body_well_formed_iff (raw : List Char) :
    ((body raw true).length ≤ MAX_BODY_CHARS ∧ '<' ∉ body raw true ∧ '>' ∉ body raw true ∧
      ∀ c ∈ body raw true, (Clipboard.isControl c → c = '\n' ∨ c = '\t') ∧ isFormatChar c = false) ∧
    (Entities (body raw true) ↔
      (escapeMarkup (sanitizeBlock raw usizeMax)).length ≤ MAX_BODY_CHARS ∨
      ∃ shown rest, sanitizeBlock raw usizeMax = shown ++ rest ∧
        (escapeMarkup shown).length = MAX_BODY_CHARS - 1) ∧
    (Entities (body raw true) ∧ unescape (body raw true) <+: sanitizeBlock raw usizeMax ↔
      (escapeMarkup (sanitizeBlock raw usizeMax)).length ≤ MAX_BODY_CHARS ∨
      ∃ shown rest, sanitizeBlock raw usizeMax = shown ++ '…' :: rest ∧
        (escapeMarkup shown).length = MAX_BODY_CHARS - 1) := by
  have hplain : ∀ c ∈ body raw true, c ≠ '<' ∧ c ≠ '>' ∧ isShown c := by
    intro c hc
    rcases mem_truncateChars hc with hc | rfl
    · exact plain_of_mem_escapeMarkup (fun _ => isShown_of_mem_sanitizeBlock) hc
    · decide
  have hlt : '<' ∉ body raw true := fun h => (hplain _ h).1 rfl
  have hgt : '>' ∉ body raw true := fun h => (hplain _ h).2.1 rfl
  refine ⟨⟨?_, hlt, hgt, fun c hc => ?_⟩, entities_truncated_iff hlt hgt, truncated_iff hlt hgt⟩
  · simp only [body, if_true, truncateChars]
    split
    · next hle => exact hle
    · simp [MAX_BODY_CHARS]
  · have hshown := (hplain c hc).2.2
    simp only [isShown, Bool.and_eq_true, Bool.or_eq_true, Bool.not_eq_true',
      decide_eq_true_eq] at hshown
    refine ⟨fun hcont => ?_, hshown.2⟩
    rw [hcont] at hshown
    simpa using hshown.1

theorem body_cuts_entity : ¬ Entities (body (replicate 401 '&') true) := by
  intro h
  have hcut := h ['a', 'm', 'p', '…'] (by decide +kernel)
  revert hcut
  decide

end OmniBridge.Sink.Text
