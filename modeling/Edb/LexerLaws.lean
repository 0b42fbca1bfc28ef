-- How the lexer cuts a source text: blanks and comments, a token, and so on to
-- the end. The two relations below say what may stand between tokens and what
-- a token is, every text is cut by them in one way, and that is the way in
-- which the lexer cuts it.
import Mathlib.Data.List.TakeWhile
import Edb.Lexer

namespace edb

/-! ## Positions -/

/-- The line of the byte after `before`, from 1 on. -/
def line_after (before : Bytes) : Nat := before.count (chr '\n') + 1

/-- Its column: the bytes since the last line feed, and one. -/
def col_after (before : Bytes) : Nat :=
  (before.reverse.takeWhile fun b => b != chr '\n').length + 1

theorem line_after_le (before : Bytes) : line_after before ≤ before.length + 1 :=
  Nat.succ_le_succ List.count_le_length

theorem col_after_le (before : Bytes) : col_after before ≤ before.length + 1 := by
  have h := (List.takeWhile_prefix (l := before.reverse) fun b => b != chr '\n').length_le
  rw [List.length_reverse] at h
  exact Nat.succ_le_succ h

/-- A token that starts after `before`. -/
def Token.after (before : Bytes) (kind : TokenKind) (text : Bytes) : Token where
  kind := kind
  text := text
  line := line_after before % 2 ^ 32
  col := col_after before % 2 ^ 32

namespace Lexer

/-- The lexer that has passed over `before` and has `rest` still to read. -/
def past (before rest : Bytes) : Lexer where
  rest := rest
  line := line_after before % 2 ^ 32
  col := col_after before % 2 ^ 32

@[simp] theorem past_rest (before rest : Bytes) : (past before rest).rest = rest := rfl

@[simp] theorem at_byte_past (before rest : Bytes) (b : UInt8) :
    (past before rest).at_byte b = (rest.head? == some b) := rfl

@[simp] theorem advance_past (before rest : Bytes) (b : UInt8) :
    (past before (b :: rest)).advance = past (before ++ [b]) rest := by
  unfold advance
  by_cases hb : b = chr '\n'
  · subst hb
    rw [if_pos (by simp)]
    simp [past, line_after, col_after]
  · have hfeed : (b != chr '\n') = true := by simpa using hb
    rw [if_neg (by simpa using hb)]
    simp [past, line_after, col_after, hb, hfeed]

@[simp] theorem advance_over_past (before text rest : Bytes) :
    (past before (text ++ rest)).advance_over text = past (before ++ text) rest := by
  induction text generalizing before with
  | nil => simp [advance_over]
  | cons b text ih =>
    have hnext := ih (before ++ [b])
    unfold advance_over at hnext ⊢
    rw [List.cons_append, List.foldl_cons, advance_past, hnext]
    simp

theorem advance_while_past {p : UInt8 → Bool} {run rest : Bytes} (before : Bytes)
    (hrun : ∀ b ∈ run, p b = true) (hrest : ∀ b ∈ rest.head?, p b = false) :
    (past before (run ++ rest)).advance_while p = past (before ++ run) rest := by
  unfold advance_while
  rw [past_rest, dec.takeWhile_run hrun hrest, advance_over_past]

@[simp] theorem make_tok_past (kind : TokenKind) (before text after rest : Bytes) :
    make_tok kind (past before (text ++ rest)) (past after rest) = Token.after before kind text := by
  unfold make_tok Token.after past
  simp

/-! ## Between the tokens -/

variable {lax : Bool}

/-- The mark that closes a block comment is not in `body`. -/
def Unclosed (body : Bytes) : Prop := ¬ [chr '*', chr '/'] <:+: body

/-- Blanks and comments that `rest` comes after. A line comment goes up to a
line feed or the end of the source, and a block comment up to its first closing
mark. At the end of the source the lexer lets a block comment have none, which
`lax` stands for here and below. -/
inductive Skipped (lax : Bool) : Bytes → Bytes → Prop
  | nil {rest : Bytes} : Skipped lax [] rest
  | blank {b : UInt8} {gap rest : Bytes} :
      is_blank b = true → Skipped lax gap rest → Skipped lax (b :: gap) rest
  | line {body gap rest : Bytes} :
      chr '\n' ∉ body → (∀ b ∈ (gap ++ rest).head?, b = chr '\n') → Skipped lax gap rest →
      Skipped lax (chr '-' :: chr '-' :: body ++ gap) rest
  | block {body gap rest : Bytes} :
      Unclosed body → Skipped lax gap rest →
      Skipped lax (chr '/' :: chr '*' :: body ++ chr '*' :: chr '/' :: gap) rest
  | open_block {body : Bytes} :
      lax = true → Unclosed body → Skipped lax (chr '/' :: chr '*' :: body) []

theorem skipped_blanks {gap : Bytes} (rest : Bytes) (h : ∀ b ∈ gap, is_blank b = true) :
    Skipped lax gap rest := by
  induction gap with
  | nil => exact .nil
  | cons b gap ih =>
    obtain ⟨hb, hgap⟩ := List.forall_mem_cons.mp h
    exact .blank hb (ih hgap)

/-- Neither a blank nor a comment comes next. -/
def Begins (rest : Bytes) : Prop :=
  ∀ c after, rest = c :: after → is_blank c = false ∧
    ¬ (c = chr '-' ∧ after.head? = some (chr '-')) ∧
    ¬ (c = chr '/' ∧ after.head? = some (chr '*'))

theorem unclosed_nil : Unclosed [] := by
  intro h
  have := h.length_le
  simp at this

theorem unclosed_cons {b : UInt8} {body : Bytes} :
    Unclosed (b :: body) ↔ ¬ (b = chr '*' ∧ body.head? = some (chr '/')) ∧ Unclosed body := by
  unfold Unclosed
  rw [List.infix_cons_iff, not_or]
  have hfront : [chr '*', chr '/'] <+: b :: body ↔ b = chr '*' ∧ body.head? = some (chr '/') := by
    rw [List.cons_prefix_cons]
    cases body with
    | nil => simp
    | cons c body => simp [List.cons_prefix_cons, eq_comm]
  rw [hfront]

/-- The loop of `skip_block_comment` stops after the closing mark. -/
theorem block_comment_body_closed {body : Bytes} (h : Unclosed body) (rest : Bytes) :
    block_comment_body (body ++ chr '*' :: chr '/' :: rest) = body ++ [chr '*', chr '/'] := by
  induction body with
  | nil => simp [block_comment_body]
  | cons b body ih =>
    obtain ⟨hfirst, hbody⟩ := unclosed_cons.mp h
    have hnext : ¬ (b = chr '*' ∧ (body ++ chr '*' :: chr '/' :: rest).head? = some (chr '/')) := by
      rintro ⟨hb, hhead⟩
      cases body with
      | nil => exact absurd hhead (by simp; decide)
      | cons c body => exact hfirst ⟨hb, by simpa using hhead⟩
    rw [List.cons_append, block_comment_body, if_neg hnext, ih hbody]
    rfl

theorem block_comment_body_open {body : Bytes} (h : Unclosed body) :
    block_comment_body body = body := by
  induction body with
  | nil => rfl
  | cons b body ih =>
    obtain ⟨hfirst, hbody⟩ := unclosed_cons.mp h
    rw [block_comment_body, if_neg hfirst, ih hbody]

/-- A text holds the closing mark of a comment or it does not. -/
theorem exists_closing (text : Bytes) :
    (∃ body rest, Unclosed body ∧ text = body ++ chr '*' :: chr '/' :: rest) ∨ Unclosed text := by
  induction text with
  | nil => exact Or.inr unclosed_nil
  | cons b text ih =>
    by_cases hclose : b = chr '*' ∧ text.head? = some (chr '/')
    · obtain ⟨rfl, hhead⟩ := hclose
      obtain ⟨rest, rfl⟩ : ∃ rest, text = chr '/' :: rest := by
        cases text with
        | nil => cases hhead
        | cons c rest => exact ⟨rest, by simpa using hhead⟩
      exact Or.inl ⟨[], rest, unclosed_nil, rfl⟩
    · rcases ih with ⟨body, rest, hbody, rfl⟩ | htext
      · refine Or.inl ⟨b :: body, rest, unclosed_cons.mpr ⟨?_, hbody⟩, rfl⟩
        rintro ⟨hb, hhead⟩
        refine hclose ⟨hb, ?_⟩
        cases body with
        | nil => cases hhead
        | cons c body => simpa using hhead
      · exact Or.inr (unclosed_cons.mpr ⟨hclose, htext⟩)

theorem begins_nil : Begins [] := fun _ _ h => nomatch h

/-- Every text starts with blanks and comments up to where a token begins. -/
theorem exists_skipped (text : Bytes) :
    ∃ gap rest, text = gap ++ rest ∧ Skipped true gap rest ∧ Begins rest := by
  induction hn : text.length using Nat.strong_induction_on generalizing text with
  | _ n ih =>
    cases text with
    | nil => exact ⟨[], [], rfl, .nil, begins_nil⟩
    | cons c text =>
      by_cases hblank : is_blank c = true
      · obtain ⟨gap, rest, rfl, hgap, hrest⟩ := ih text.length (by simp [← hn]) text rfl
        exact ⟨c :: gap, rest, rfl, .blank hblank hgap, hrest⟩
      · by_cases hline : c = chr '-' ∧ text.head? = some (chr '-')
        · obtain ⟨rfl, hhead⟩ := hline
          obtain ⟨after, rfl⟩ : ∃ after, text = chr '-' :: after := by
            cases text with
            | nil => cases hhead
            | cons c after => exact ⟨after, by simpa using hhead⟩
          -- the comment is what comes before the next line feed
          have hsplit := List.takeWhile_append_dropWhile (p := fun b => b != chr '\n') (l := after)
          obtain ⟨gap, rest, hafter, hgap, hrest⟩ :=
            ih (after.dropWhile fun b => b != chr '\n').length (by
              have := (List.dropWhile_suffix (l := after) fun b => b != chr '\n').length_le
              simp only [List.length_cons] at hn
              omega) _ rfl
          refine ⟨chr '-' :: chr '-' :: after.takeWhile (fun b => b != chr '\n') ++ gap, rest, ?_,
            .line ?_ ?_ hgap,
            hrest⟩
          · simp only [List.cons_append, List.append_assoc, ← hafter, hsplit]
          · intro hmem
            have := List.mem_takeWhile_imp hmem
            simp at this
          · intro b hb
            rw [← hafter] at hb
            have hstop := List.head?_dropWhile_not (fun b => b != chr '\n') after
            rw [Option.mem_def] at hb
            rw [hb] at hstop
            simpa using hstop
        · by_cases hblock : c = chr '/' ∧ text.head? = some (chr '*')
          · obtain ⟨rfl, hhead⟩ := hblock
            obtain ⟨after, rfl⟩ : ∃ after, text = chr '*' :: after := by
              cases text with
              | nil => cases hhead
              | cons c after => exact ⟨after, by simpa using hhead⟩
            rcases exists_closing after with ⟨body, tail, hbody, rfl⟩ | hopen
            · obtain ⟨gap, rest, rfl, hgap, hrest⟩ := ih tail.length (by
                simp only [List.length_cons, List.length_append] at hn
                omega) tail rfl
              exact ⟨_, rest, by simp, .block hbody hgap, hrest⟩
            · exact ⟨_, [], by simp, .open_block rfl hopen, begins_nil⟩
          · refine ⟨[], c :: text, rfl, .nil, fun d after h => ?_⟩
            obtain ⟨rfl, rfl⟩ := List.cons.inj h
            exact ⟨by simpa using hblank, hline, hblock⟩

/-- The loop passes over what may stand between tokens, and stops. -/
theorem skip_loop_past {gap rest : Bytes} (h : Skipped lax gap rest) (hrest : Begins rest) :
    ∀ before rounds, gap.length ≤ rounds →
      skip_loop rounds (past before (gap ++ rest)) = past (before ++ gap) rest := by
  induction h with
  | @nil rest =>
    intro before rounds _
    rw [List.nil_append, List.append_nil]
    cases rounds with
    | zero => rfl
    | succ rounds =>
      cases rest with
      | nil => rfl
      | cons c after =>
        obtain ⟨hblank, hline, hblock⟩ := hrest c after rfl
        simp [skip_loop, hblank, hline, hblock]
  | @blank b gap rest hb _ ih =>
    intro before rounds hrounds
    obtain ⟨rounds, rfl⟩ : ∃ k, rounds = k + 1 := ⟨rounds - 1, by simp at hrounds; omega⟩
    have hnext := ih hrest (before ++ [b]) rounds (by simpa using hrounds)
    simp [skip_loop, hb, hnext]
  | @line body gap rest hbody hend _ ih =>
    intro before rounds hrounds
    obtain ⟨rounds, rfl⟩ : ∃ k, rounds = k + 1 := ⟨rounds - 1, by simp at hrounds; omega⟩
    have hnext := ih hrest (before ++ (chr '-' :: chr '-' :: body)) rounds (by
      simp at hrounds
      omega)
    have hskip : (past before ((chr '-' :: chr '-' :: body) ++ (gap ++ rest))).skip_line_comment =
        past (before ++ (chr '-' :: chr '-' :: body)) (gap ++ rest) := by
      refine advance_while_past before (fun b hb => ?_) (fun b hb => by simp [hend b hb])
      rcases List.mem_cons.mp hb with rfl | hb
      · decide
      · rcases List.mem_cons.mp hb with rfl | hb
        · decide
        · have hne : b ≠ chr '\n' := fun h => hbody (h ▸ hb)
          simpa using hne
    rw [List.append_assoc (chr '-' :: chr '-' :: body)]
    unfold skip_loop
    rw [past_rest, List.cons_append, List.cons_append]
    dsimp only
    rw [if_neg (by decide), if_pos ⟨rfl, rfl⟩, ← List.cons_append, ← List.cons_append, hskip, hnext]
    simp
  | @block body gap rest hbody _ ih =>
    intro before rounds hrounds
    obtain ⟨rounds, rfl⟩ : ∃ k, rounds = k + 1 := ⟨rounds - 1, by simp at hrounds; omega⟩
    have hnext := ih hrest (before ++ (chr '/' :: chr '*' :: body ++ [chr '*', chr '/'])) rounds (by
      simp at hrounds
      omega)
    have hskip : (past before (chr '/' :: chr '*' ::
        (body ++ chr '*' :: chr '/' :: (gap ++ rest)))).skip_block_comment =
        past (before ++ (chr '/' :: chr '*' :: body ++ [chr '*', chr '/'])) (gap ++ rest) := by
      have hover := advance_over_past (before ++ [chr '/'] ++ [chr '*'])
        (body ++ [chr '*', chr '/']) (gap ++ rest)
      unfold skip_block_comment
      rw [advance_past, advance_past]
      dsimp only
      rw [past_rest, block_comment_body_closed hbody]
      simpa using hover
    have htext : chr '/' :: chr '*' :: body ++ chr '*' :: chr '/' :: gap ++ rest =
        chr '/' :: chr '*' :: (body ++ chr '*' :: chr '/' :: (gap ++ rest)) := by simp
    rw [htext]
    unfold skip_loop
    rw [past_rest]
    dsimp only
    rw [if_neg (by decide), if_neg fun h => absurd h.1 (by decide), if_pos ⟨rfl, rfl⟩, hskip, hnext]
    simp
  | @open_block body _ hbody =>
    intro before rounds hrounds
    obtain ⟨rounds, rfl⟩ : ∃ k, rounds = k + 1 := ⟨rounds - 1, by simp at hrounds; omega⟩
    have hskip : (past before (chr '/' :: chr '*' :: body)).skip_block_comment =
        past (before ++ (chr '/' :: chr '*' :: body)) [] := by
      have hover := advance_over_past (before ++ [chr '/'] ++ [chr '*']) body []
      unfold skip_block_comment
      rw [advance_past, advance_past]
      dsimp only
      rw [past_rest, block_comment_body_open hbody]
      simpa using hover
    rw [List.append_nil]
    unfold skip_loop
    rw [past_rest]
    dsimp only
    rw [if_neg (by decide), if_neg fun h => absurd h.1 (by decide), if_pos ⟨rfl, rfl⟩, hskip]
    cases rounds <;> rfl

theorem skip_past {gap rest : Bytes} (h : Skipped lax gap rest) (hrest : Begins rest)
    (before : Bytes) :
    (past before (gap ++ rest)).skip_whitespace_and_comments = past (before ++ gap) rest :=
  skip_loop_past h hrest before _ (by simp)

/-! ## Tokens -/

/-- The tokens of one byte. -/
def MARKS : List (UInt8 × TokenKind) := [
  (chr '(', .LParen),
  (chr ')', .RParen),
  (chr ',', .Comma),
  (chr ';', .Semicolon),
  (chr '*', .Star),
  (chr '.', .Dot),
  (chr '=', .Eq),
  (chr '<', .Lt),
  (chr '>', .Gt)]

/-- The kind of a token that is the byte `c` by itself. -/
def single (c : UInt8) : Option TokenKind := (MARKS.find? fun entry => entry.1 == c).map Prod.snd

/-- The kind of a token of two bytes. -/
def pair (c d : UInt8) : Option TokenKind :=
  if c = chr '<' ∧ d = chr '=' then some .Le
  else if c = chr '<' ∧ d = chr '>' then some .Neq
  else if c = chr '>' ∧ d = chr '=' then some .Ge
  else none

/-- The text with every quote written twice. -/
def doubled (s : Bytes) : Bytes := s.flatMap fun b => if b = chr '\'' then [b, b] else [b]

/-- A string literal that stands for `s`. -/
def quoted (s : Bytes) : Bytes := chr '\'' :: doubled s ++ [chr '\'']

def Digits (ds : Bytes) : Prop := ∀ b ∈ ds, dec.is_digit b = true

instance (ds : Bytes) : Decidable (Digits ds) :=
  inferInstanceAs (Decidable (∀ b ∈ ds, dec.is_digit b = true))

def is_exponent_mark (b : UInt8) : Bool := b == chr 'e' || b == chr 'E'

def is_sign (b : UInt8) : Bool := b == chr '+' || b == chr '-'

/-- The part of a number from the point on. There is none where no digit
follows the point. -/
inductive Fraction : Bytes → Bytes → Prop
  | none {rest : Bytes} :
      (∀ d after, rest = chr '.' :: d :: after → dec.is_digit d = false) → Fraction [] rest
  | some {ds rest : Bytes} :
      ds ≠ [] → Digits ds → (∀ b ∈ rest.head?, dec.is_digit b = false) →
      Fraction (chr '.' :: ds) rest

/-- The part of a number from the exponent mark on. The lexer does not ask for
digits. -/
inductive Exponent (lax : Bool) : Bytes → Bytes → Prop
  | none {rest : Bytes} : (∀ b ∈ rest.head?, is_exponent_mark b = false) → Exponent lax [] rest
  | unsigned {mark : UInt8} {ds rest : Bytes} :
      is_exponent_mark mark = true → (∀ b ∈ (ds ++ rest).head?, is_sign b = false) →
      Digits ds → lax = true ∨ ds ≠ [] → (∀ b ∈ rest.head?, dec.is_digit b = false) →
      Exponent lax (mark :: ds) rest
  | signed {mark sign : UInt8} {ds rest : Bytes} :
      is_exponent_mark mark = true → is_sign sign = true →
      Digits ds → lax = true ∨ ds ≠ [] → (∀ b ∈ rest.head?, dec.is_digit b = false) →
      Exponent lax (mark :: sign :: ds) rest

/-- The text of a token of some kind, with `rest` after it. A token goes as far
as it can. At the end of the source the lexer lets a string have no end. -/
inductive Lexeme (lax : Bool) : TokenKind → Bytes → Bytes → Prop
  | mark {c : UInt8} {kind : TokenKind} {rest : Bytes} :
      single c = some kind → (∀ d ∈ rest.head?, pair c d = none) → Lexeme lax kind [c] rest
  | double_mark {c d : UInt8} {kind : TokenKind} {rest : Bytes} :
      pair c d = some kind → Lexeme lax kind [c, d] rest
  | string {s rest : Bytes} : rest.head? ≠ some (chr '\'') → Lexeme lax .LitString (quoted s) rest
  | open_string {s : Bytes} : lax = true → Lexeme lax .LitString (chr '\'' :: doubled s) []
  | word {c : UInt8} {cs rest : Bytes} :
      is_ident_start c = true → (∀ b ∈ cs, is_ident_char b = true) →
      (∀ b ∈ rest.head?, is_ident_char b = false) →
      Lexeme lax (match_keyword (((c :: cs).take max_kw_len).map to_lower)) (c :: cs) rest
  | number {c : UInt8} {whole fraction exponent rest : Bytes} :
      dec.is_digit c = true → Digits whole →
      (∀ b ∈ (fraction ++ exponent ++ rest).head?, dec.is_digit b = false) →
      Fraction fraction (exponent ++ rest) → Exponent lax exponent rest →
      Lexeme lax (if fraction = [] ∧ exponent = [] then .LitInteger else .LitFloat)
        (c :: whole ++ fraction ++ exponent) rest
  | unknown {c : UInt8} {rest : Bytes} :
      Begins (c :: rest) → single c = none → c ≠ chr '\'' → is_ident_start c = false →
      dec.is_digit c = false → Lexeme lax .Unknown [c] rest

/-! ### What the first byte says -/

theorem single_eq_none_iff {c : UInt8} :
    single c = none ↔ ∀ entry ∈ MARKS, c ≠ entry.1 := by
  unfold single
  rw [Option.map_eq_none_iff, List.find?_eq_none]
  constructor
  · intro h entry hentry hc
    exact h entry hentry (by simp [hc])
  · intro h entry hentry hc
    exact h entry hentry (eq_of_beq hc).symm

theorem mem_of_single {c : UInt8} {kind : TokenKind} (h : single c = some kind) :
    (c, kind) ∈ MARKS := by
  obtain ⟨⟨d, k⟩, hfind, rfl⟩ := Option.map_eq_some_iff.mp h
  have hd : d = c := by simpa using List.find?_some hfind
  exact hd ▸ List.mem_of_find?_eq_some hfind

/-- A byte of a class that no mark is in is not a mark. -/
theorem single_eq_none_of {p : UInt8 → Bool} {c : UInt8} (hc : p c = true)
    (hp : ∀ entry ∈ MARKS, p entry.1 = false) : single c = none := by
  refine single_eq_none_iff.mpr fun entry hentry he => ?_
  rw [he, hp entry hentry] at hc
  cases hc

theorem is_ident_start_of_is_digit {c : UInt8} (h : dec.is_digit c = true) :
    is_ident_start c = false := by
  have hrange : 48 ≤ c.toNat ∧ c.toNat ≤ 57 := by simpa [dec.is_digit] using h
  have hA : (chr 'A').toNat = 65 := rfl
  have ha : (chr 'a').toNat = 97 := rfl
  have hunder : (c == chr '_') = false := by
    rw [beq_eq_false_iff_ne]
    rintro rfl
    exact absurd h (by decide)
  simp only [is_ident_start, is_alpha, hunder, Bool.or_false, decide_eq_false_iff_not,
    UInt8.le_iff_toNat_le]
  omega

theorem pair_eq_some {c d : UInt8} {kind : TokenKind} (h : pair c d = some kind) :
    (c = chr '<' ∧ d = chr '=' ∧ kind = .Le) ∨ (c = chr '<' ∧ d = chr '>' ∧ kind = .Neq) ∨
      (c = chr '>' ∧ d = chr '=' ∧ kind = .Ge) := by
  unfold pair at h
  split at h
  · rename_i hcd
    cases h
    exact Or.inl ⟨hcd.1, hcd.2, rfl⟩
  · split at h
    · rename_i hcd
      cases h
      exact Or.inr (Or.inl ⟨hcd.1, hcd.2, rfl⟩)
    · split at h
      · rename_i hcd
        cases h
        exact Or.inr (Or.inr ⟨hcd.1, hcd.2, rfl⟩)
      · cases h

/-- A byte that is not blank and starts no comment. -/
theorem begins_of_class {p : UInt8 → Bool} {c : UInt8} (rest : Bytes) (hc : p c = true)
    (hblank : [chr ' ', chr '\t', chr '\r', chr '\n', chr '-', chr '/'].any p = false) :
    Begins (c :: rest) := by
  have hne : ∀ b ∈ [chr ' ', chr '\t', chr '\r', chr '\n', chr '-', chr '/'], c ≠ b := by
    rintro b hb rfl
    exact List.any_eq_false.mp hblank c hb hc
  intro d after h
  obtain ⟨rfl, rfl⟩ := List.cons.inj h
  simp only [List.mem_cons, List.not_mem_nil, or_false, forall_eq_or_imp, forall_eq] at hne
  obtain ⟨h1, h2, h3, h4, h5, h6⟩ := hne
  exact ⟨by simp [is_blank, h1, h2, h3, h4], fun h => h5 h.1, fun h => h6 h.1⟩

theorem Lexeme.begins {kind : TokenKind} {text rest : Bytes} (h : Lexeme lax kind text rest) :
    Begins (text ++ rest) := by
  cases h with
  | @mark c _ _ hsingle _ =>
    have hmem := mem_of_single hsingle
    refine begins_of_class (p := fun b => (single b).isSome) rest (by simp [hsingle]) ?_
    decide
  | @double_mark c d _ _ hpair =>
    refine begins_of_class (p := fun b => b == chr '<' || b == chr '>') (d :: rest) ?_ (by decide)
    rcases pair_eq_some hpair with ⟨rfl, -, -⟩ | ⟨rfl, -, -⟩ | ⟨rfl, -, -⟩ <;> rfl
  | string _ => exact begins_of_class (p := fun b => b == chr '\'') _ (by decide) (by decide)
  | open_string _ => exact begins_of_class (p := fun b => b == chr '\'') _ (by decide) (by decide)
  | word hc _ _ => exact begins_of_class _ hc (by decide)
  | number hc _ _ _ _ => exact begins_of_class _ hc (by decide)
  | unknown hbegins _ _ _ _ => exact hbegins

theorem Lexeme.ne_nil {kind : TokenKind} {text rest : Bytes} (h : Lexeme lax kind text rest) :
    text ≠ [] := by
  cases h <;> simp [quoted]

/-! ### Every text has a token -/

@[simp] theorem doubled_nil : doubled [] = [] := rfl

theorem doubled_cons (b : UInt8) (s : Bytes) :
    doubled (b :: s) = (if b = chr '\'' then [b, b] else [b]) ++ doubled s := rfl

/-- A string goes up to a quote that stands alone, or to the end of the text. -/
theorem exists_string (text : Bytes) :
    (∃ s rest, text = doubled s ++ chr '\'' :: rest ∧ rest.head? ≠ some (chr '\'')) ∨
      ∃ s, text = doubled s := by
  induction hn : text.length using Nat.strong_induction_on generalizing text with
  | _ n ih =>
    rcases text with _ | ⟨b, text⟩
    · exact Or.inr ⟨[], rfl⟩
    · by_cases hb : b = chr '\''
      · subst hb
        by_cases hhead : text.head? = some (chr '\'')
        · obtain ⟨after, rfl⟩ : ∃ after, text = chr '\'' :: after := by
            cases text with
            | nil => cases hhead
            | cons c after => exact ⟨after, by simpa using hhead⟩
          rcases ih after.length (by simp at hn; omega) after rfl with ⟨s, rest, rfl, hrest⟩ | ⟨s, rfl⟩
          · exact Or.inl ⟨chr '\'' :: s, rest, rfl, hrest⟩
          · exact Or.inr ⟨chr '\'' :: s, rfl⟩
        · exact Or.inl ⟨[], text, rfl, hhead⟩
      · rcases ih text.length (by simp at hn; omega) text rfl with ⟨s, rest, rfl, hrest⟩ | ⟨s, rfl⟩
        · exact Or.inl ⟨b :: s, rest, by simp [doubled_cons, hb], hrest⟩
        · exact Or.inr ⟨b :: s, by simp [doubled_cons, hb]⟩

/-- A text is a run of the bytes of a class and what comes after it. -/
theorem exists_run (p : UInt8 → Bool) (text : Bytes) :
    ∃ run rest, text = run ++ rest ∧ (∀ b ∈ run, p b = true) ∧ ∀ b ∈ rest.head?, p b = false := by
  refine ⟨text.takeWhile p, text.dropWhile p, List.takeWhile_append_dropWhile.symm,
    fun b hb => List.mem_takeWhile_imp hb, fun b hb => ?_⟩
  have hstop := List.head?_dropWhile_not p text
  rw [Option.mem_def] at hb
  rw [hb] at hstop
  exact hstop

theorem exists_fraction (text : Bytes) : ∃ fraction rest, text = fraction ++ rest ∧
    Fraction fraction rest := by
  by_cases h : ∃ d after, text = chr '.' :: d :: after ∧ dec.is_digit d = true
  · obtain ⟨d, after, rfl, hd⟩ := h
    obtain ⟨run, rest, rfl, hrun, hrest⟩ := exists_run dec.is_digit after
    refine ⟨chr '.' :: d :: run, rest, rfl, .some (List.cons_ne_nil _ _) ?_ hrest⟩
    intro b hb
    rcases List.mem_cons.mp hb with rfl | hb
    · exact hd
    · exact hrun b hb
  · refine ⟨[], text, rfl, .none fun d after htext => ?_⟩
    rw [← Bool.not_eq_true]
    exact fun hd => h ⟨d, after, htext, hd⟩

theorem exists_exponent (text : Bytes) : ∃ exponent rest, text = exponent ++ rest ∧
    Exponent true exponent rest := by
  rcases text with _ | ⟨mark, after⟩
  · exact ⟨[], [], rfl, .none (by simp)⟩
  · by_cases hmark : is_exponent_mark mark = true
    · by_cases hsign : ∃ sign tail, after = sign :: tail ∧ is_sign sign = true
      · obtain ⟨sign, tail, rfl, hsign⟩ := hsign
        obtain ⟨run, rest, rfl, hrun, hrest⟩ := exists_run dec.is_digit tail
        exact ⟨mark :: sign :: run, rest, rfl, .signed hmark hsign hrun (Or.inl rfl) hrest⟩
      · obtain ⟨run, rest, rfl, hrun, hrest⟩ := exists_run dec.is_digit after
        refine ⟨mark :: run, rest, rfl, .unsigned hmark (fun b hb => ?_) hrun (Or.inl rfl) hrest⟩
        rw [← Bool.not_eq_true]
        intro hb'
        obtain ⟨tail, htail⟩ := List.head?_eq_some_iff.mp hb
        exact hsign ⟨b, tail, htail, hb'⟩
    · exact ⟨[], mark :: after, rfl, .none (by simpa using hmark)⟩

theorem exists_number {c : UInt8} (hc : dec.is_digit c = true) (text : Bytes) :
    ∃ kind more rest, text = more ++ rest ∧ Lexeme true kind (c :: more) rest := by
  obtain ⟨whole, tail, rfl, hwhole, htail⟩ := exists_run dec.is_digit text
  obtain ⟨fraction, after, rfl, hfraction⟩ := exists_fraction tail
  obtain ⟨exponent, rest, rfl, hexponent⟩ := exists_exponent after
  have h := Lexeme.number hc hwhole (by simpa using htail) hfraction hexponent
  exact ⟨_, whole ++ fraction ++ exponent, rest, by simp, h⟩

/-- Where neither a blank nor a comment comes next, a token does. -/
theorem exists_lexeme {c : UInt8} {text : Bytes} (h : Begins (c :: text)) :
    ∃ kind more rest, text = more ++ rest ∧ Lexeme true kind (c :: more) rest := by
  rcases hsingle : single c with _ | kind
  · by_cases hquote : c = chr '\''
    · subst hquote
      rcases exists_string text with ⟨s, rest, rfl, hrest⟩ | ⟨s, rfl⟩
      · exact ⟨_, doubled s ++ [chr '\''], rest, by simp, .string hrest⟩
      · exact ⟨_, doubled s, [], by simp, .open_string rfl⟩
    · by_cases hword : is_ident_start c = true
      · obtain ⟨cs, rest, rfl, hcs, hrest⟩ := exists_run is_ident_char text
        exact ⟨_, cs, rest, rfl, .word hword hcs hrest⟩
      · by_cases hdigit : dec.is_digit c = true
        · exact exists_number hdigit text
        · exact ⟨_, [], text, rfl, .unknown h hsingle hquote (by simpa using hword)
            (by simpa using hdigit)⟩
  · by_cases hpair : ∃ d after k, text = d :: after ∧ pair c d = some k
    · obtain ⟨d, after, k, rfl, hk⟩ := hpair
      exact ⟨k, [d], after, rfl, .double_mark hk⟩
    · refine ⟨kind, [], text, rfl, .mark hsingle fun d hd => ?_⟩
      obtain ⟨after, rfl⟩ := List.head?_eq_some_iff.mp hd
      rcases hk : pair c d with _ | k
      · rfl
      · exact absurd ⟨d, after, k, rfl, hk⟩ hpair

/-! ### The lexer reads it -/

theorem emit_past (kind : TokenKind) (before text rest : Bytes) :
    emit kind (past before (text ++ rest)) (past (before ++ text) rest) =
      (Token.after before kind text, past (before ++ text) rest) := by
  unfold emit
  rw [make_tok_past]

theorem string_body_closed (s : Bytes) {rest : Bytes} (h : rest.head? ≠ some (chr '\'')) :
    string_body (doubled s ++ chr '\'' :: rest) = doubled s ++ [chr '\''] := by
  induction s with
  | nil =>
    rcases rest with _ | ⟨d, rest⟩
    · rfl
    · have hd : d ≠ chr '\'' := by simpa using h
      simp [string_body, hd]
  | cons b s ih =>
    rw [doubled_cons]
    by_cases hb : b = chr '\''
    · subst hb
      simp [string_body, ih]
    · obtain ⟨d, after, hafter⟩ : ∃ d after, doubled s ++ chr '\'' :: rest = d :: after :=
        List.exists_cons_of_ne_nil (by simp)
      rw [if_neg hb, List.append_assoc, List.singleton_append, hafter, string_body, if_neg hb,
        ← hafter, ih]
      simp

theorem string_body_open (s : Bytes) : string_body (doubled s) = doubled s := by
  induction s with
  | nil => rfl
  | cons b s ih =>
    rw [doubled_cons]
    by_cases hb : b = chr '\''
    · subst hb
      simp [string_body, ih]
    · rw [if_neg hb]
      rcases hs : doubled s with _ | ⟨d, after⟩
      · rfl
      · rw [List.singleton_append, string_body, if_neg hb, ← hs, ih]

theorem scan_string_past {body after rest : Bytes} (before : Bytes)
    (h : string_body after = body) (hafter : after = body ++ rest) :
    scan_string (past before (chr '\'' :: after)) (past (before ++ [chr '\'']) after) =
      (Token.after before .LitString (chr '\'' :: body), past (before ++ chr '\'' :: body) rest) := by
  have hover := advance_over_past (before ++ [chr '\'']) body rest
  have htok := make_tok_past .LitString before (chr '\'' :: body) (before ++ chr '\'' :: body) rest
  unfold scan_string
  dsimp only
  rw [past_rest, h, hafter, hover, ← List.cons_append, List.append_assoc, List.singleton_append,
    htok]

theorem scan_ident_past {c : UInt8} {cs rest : Bytes} (before : Bytes)
    (hcs : ∀ b ∈ cs, is_ident_char b = true) (hrest : ∀ b ∈ rest.head?, is_ident_char b = false) :
    scan_ident_or_kw (past before (c :: (cs ++ rest))) (past (before ++ [c]) (cs ++ rest)) =
      (Token.after before (match_keyword (((c :: cs).take max_kw_len).map to_lower)) (c :: cs),
        past (before ++ c :: cs) rest) := by
  have hover := advance_while_past (before ++ [c]) hcs hrest
  have htok := make_tok_past .Identifier before (c :: cs) (before ++ c :: cs) rest
  unfold scan_ident_or_kw
  dsimp only
  rw [hover, ← List.cons_append, List.append_assoc, List.singleton_append, htok]
  rfl

/-- Whether `scan_number` sees a fraction, and where it is after it. -/
theorem scan_fraction_past {fraction rest : Bytes} (before : Bytes) (h : Fraction fraction rest) :
    ((past before (fraction ++ rest)).at_byte (chr '.') &&
        (fraction ++ rest).tail.head?.any dec.is_digit) = !fraction.isEmpty ∧
      (if !fraction.isEmpty then
          (past before (fraction ++ rest)).advance.advance_while dec.is_digit
        else past before (fraction ++ rest)) = past (before ++ fraction) rest := by
  cases h with
  | none hnone =>
    refine ⟨?_, by simp⟩
    rcases rest with _ | ⟨b, _ | ⟨d, after⟩⟩
    · rfl
    · simp
    · by_cases hb : b = chr '.'
      · subst hb
        simp [hnone d after rfl]
      · simp [hb]
  | @some ds _ hne hds hrest =>
    obtain ⟨d, more, rfl⟩ := List.exists_cons_of_ne_nil hne
    have hover := advance_while_past (before ++ [chr '.']) hds hrest
    refine ⟨by simp [hds d List.mem_cons_self], ?_⟩
    rw [if_pos (by simp), List.cons_append, advance_past, hover, List.append_assoc, List.singleton_append]

theorem scan_exponent_past {exponent rest : Bytes} (before : Bytes) (h : Exponent lax exponent rest) :
    ((past before (exponent ++ rest)).at_byte (chr 'e') ||
        (past before (exponent ++ rest)).at_byte (chr 'E')) = !exponent.isEmpty ∧
      (if !exponent.isEmpty then
          let lex := (past before (exponent ++ rest)).advance
          let lex := if lex.at_byte (chr '+') || lex.at_byte (chr '-') then lex.advance else lex
          lex.advance_while dec.is_digit
        else past before (exponent ++ rest)) = past (before ++ exponent) rest := by
  cases h with
  | none hnone =>
    refine ⟨?_, by simp⟩
    rcases rest with _ | ⟨b, after⟩
    · rfl
    · exact hnone b rfl
  | @unsigned mark ds _ hmark hsign hds _ hrest =>
    have hover := advance_while_past (before ++ [mark]) hds hrest
    have hno : ((ds ++ rest).head? == some (chr '+') || (ds ++ rest).head? == some (chr '-')) =
        false := by
      rcases htext : ds ++ rest with _ | ⟨b, after⟩
      · rfl
      · exact hsign b (by rw [htext]; rfl)
    refine ⟨hmark, ?_⟩
    rw [if_pos (by simp), List.cons_append, advance_past]
    dsimp only
    rw [at_byte_past, at_byte_past, hno, if_neg (by simp), hover, List.append_assoc,
      List.singleton_append]
  | @signed mark sign ds _ hmark hsign hds _ hrest =>
    have hover := advance_while_past (before ++ [mark] ++ [sign]) hds hrest
    refine ⟨hmark, ?_⟩
    rw [if_pos (by simp), List.cons_append, advance_past]
    dsimp only
    rw [at_byte_past, at_byte_past, List.cons_append]
    have hhead : ((sign :: (ds ++ rest)).head? == some (chr '+') ||
        (sign :: (ds ++ rest)).head? == some (chr '-')) = true := hsign
    rw [hhead, if_pos rfl, advance_past, hover]
    simp

theorem scan_number_past {c : UInt8} {whole fraction exponent rest : Bytes} (before : Bytes)
    (hwhole : Digits whole)
    (hstop : ∀ b ∈ (fraction ++ exponent ++ rest).head?, dec.is_digit b = false)
    (hfraction : Fraction fraction (exponent ++ rest)) (hexponent : Exponent lax exponent rest) :
    scan_number (past before (c :: (whole ++ fraction ++ exponent ++ rest)))
        (past (before ++ [c]) (whole ++ fraction ++ exponent ++ rest)) =
      (Token.after before (if fraction = [] ∧ exponent = [] then .LitInteger else .LitFloat)
          (c :: whole ++ fraction ++ exponent),
        past (before ++ (c :: whole ++ fraction ++ exponent)) rest) := by
  have htext : whole ++ fraction ++ exponent ++ rest = whole ++ (fraction ++ (exponent ++ rest)) := by
    simp
  have hnext : ∀ b ∈ (fraction ++ (exponent ++ rest)).head?, dec.is_digit b = false := by
    simpa using hstop
  have hover := advance_while_past (before ++ [c]) hwhole hnext
  obtain ⟨hpoint, hlex⟩ := scan_fraction_past (before ++ [c] ++ whole) hfraction
  obtain ⟨hmark, hend⟩ := scan_exponent_past (before ++ [c] ++ whole ++ fraction) hexponent
  have hkind : (if (!fraction.isEmpty || !exponent.isEmpty) = true then TokenKind.LitFloat
      else .LitInteger) = if fraction = [] ∧ exponent = [] then .LitInteger else .LitFloat := by
    cases fraction <;> cases exponent <;> rfl
  have hpast : before ++ [c] ++ whole ++ fraction ++ exponent =
      before ++ (c :: whole ++ fraction ++ exponent) := by simp
  have htok := make_tok_past (if fraction = [] ∧ exponent = [] then .LitInteger else .LitFloat)
    before (c :: whole ++ fraction ++ exponent) (before ++ (c :: whole ++ fraction ++ exponent)) rest
  unfold scan_number
  dsimp only
  rw [htext, hover, past_rest, hpoint, hlex, hmark, hkind]
  dsimp only at hend
  rw [hend, hpast, ← htok]
  simp

/-- The lexer passes over what comes before a token, and reads the token. -/
theorem scan_one_past {kind : TokenKind} {gap text rest : Bytes} (hgap : Skipped lax gap (text ++ rest))
    (h : Lexeme lax kind text rest) (before : Bytes) :
    (past before (gap ++ (text ++ rest))).scan_one =
      (Token.after (before ++ gap) kind text, past (before ++ gap ++ text) rest) := by
  unfold scan_one
  rw [skip_past hgap h.begins]
  generalize before ++ gap = before
  dsimp only
  rw [past_rest]
  cases h with
  | @mark c kind _ hsingle hpair =>
    have hmark := emit_past kind before [c] rest
    have hno : ∀ d, pair c d ≠ none → (rest.head? == some d) = false := by
      intro d hd
      rcases rest with _ | ⟨b, after⟩
      · rfl
      · have hb : b ≠ d := fun he => hd (he ▸ hpair b rfl)
        simpa using hb
    have hmem := mem_of_single hsingle
    rw [List.singleton_append] at hmark ⊢
    dsimp only
    rw [advance_past]
    simp only [MARKS, List.mem_cons, Prod.mk.injEq, List.not_mem_nil, or_false] at hmem
    rcases hmem with ⟨rfl, rfl⟩ | ⟨rfl, rfl⟩ | ⟨rfl, rfl⟩ | ⟨rfl, rfl⟩ | ⟨rfl, rfl⟩ | ⟨rfl, rfl⟩ |
      ⟨rfl, rfl⟩ | ⟨rfl, rfl⟩ | ⟨rfl, rfl⟩
    case inr.inr.inr.inr.inr.inr.inr.inl =>
      rw [at_byte_past, at_byte_past, hno _ (by decide), hno _ (by decide)]
      exact hmark
    case inr.inr.inr.inr.inr.inr.inr.inr =>
      rw [at_byte_past, hno _ (by decide)]
      exact hmark
    all_goals exact hmark
  | @double_mark c d kind _ hpair =>
    have hmark := emit_past kind before [c, d] rest
    rw [List.cons_append, List.singleton_append] at hmark ⊢
    dsimp only
    rw [advance_past, at_byte_past, at_byte_past, advance_past, List.append_assoc,
      List.singleton_append]
    rcases pair_eq_some hpair with ⟨rfl, rfl, rfl⟩ | ⟨rfl, rfl, rfl⟩ | ⟨rfl, rfl, rfl⟩
    all_goals exact hmark
  | @string s _ hrest =>
    have hbody := scan_string_past before (string_body_closed s hrest) (List.append_assoc _ [_] _).symm
    unfold quoted
    rw [List.cons_append, List.cons_append, List.append_assoc, List.singleton_append]
    dsimp only
    rw [advance_past]
    exact hbody
  | @open_string s _ =>
    have hbody := scan_string_past before (string_body_open s) (List.append_nil _).symm
    rw [List.append_nil]
    dsimp only
    rw [advance_past]
    exact hbody
  | @word c cs _ hc hcs hrest =>
    have hscan := scan_ident_past (c := c) before hcs hrest
    have hmarks := single_eq_none_iff.mp (single_eq_none_of hc (by decide))
    have hquote : c ≠ chr '\'' := by
      rintro rfl
      exact absurd hc (by decide)
    simp only [MARKS, List.mem_cons, List.not_mem_nil, or_false, forall_eq_or_imp, forall_eq] at hmarks
    rw [List.cons_append]
    dsimp only
    simp only [advance_past, hmarks, hquote, hc, if_true, if_false]
    exact hscan
  | @number c whole fraction exponent _ hc hwhole hstop hfraction hexponent =>
    have hscan := scan_number_past (c := c) before hwhole hstop hfraction hexponent
    have hmarks := single_eq_none_iff.mp (single_eq_none_of hc (by decide))
    have hquote : c ≠ chr '\'' := by
      rintro rfl
      exact absurd hc (by decide)
    have hword := is_ident_start_of_is_digit hc
    simp only [MARKS, List.mem_cons, List.not_mem_nil, or_false, forall_eq_or_imp, forall_eq] at hmarks
    rw [List.cons_append, List.cons_append, List.cons_append]
    dsimp only
    simp only [advance_past, hmarks, hquote, hword, hc, if_true, if_false, Bool.false_eq_true]
    exact hscan
  | @unknown c _ hbegins hsingle hquote hword hdigit =>
    have hmark := emit_past .Unknown before [c] rest
    have hmarks := single_eq_none_iff.mp hsingle
    simp only [MARKS, List.mem_cons, List.not_mem_nil, or_false, forall_eq_or_imp, forall_eq] at hmarks
    rw [List.singleton_append] at hmark ⊢
    dsimp only
    simp only [advance_past, hmarks, hquote, hword, hdigit, if_false, Bool.false_eq_true]
    exact hmark

theorem scan_one_end {gap : Bytes} (hgap : Skipped lax gap []) (before : Bytes) :
    (past before gap).scan_one = (Token.after (before ++ gap) .Eof [], past (before ++ gap) []) := by
  have hskip := skip_past hgap begins_nil before
  rw [List.append_nil] at hskip
  unfold scan_one
  rw [hskip]
  rfl

/-! ## The whole text -/

/-- The tokens of a text that comes after `before`, up to its end. -/
inductive Layout (lax : Bool) : Bytes → Bytes → List Token → Prop
  | done {before gap : Bytes} : Skipped lax gap [] → Layout lax before gap []
  | token {before gap text rest : Bytes} {kind : TokenKind} {ts : List Token} :
      Skipped lax gap (text ++ rest) → Lexeme lax kind text rest →
      Layout lax (before ++ gap ++ text) rest ts →
      Layout lax before (gap ++ (text ++ rest)) (Token.after (before ++ gap) kind text :: ts)

theorem exists_layout (before text : Bytes) : ∃ ts, Layout true before text ts := by
  induction hn : text.length using Nat.strong_induction_on generalizing before text with
  | _ n ih =>
    obtain ⟨gap, rest, rfl, hgap, hrest⟩ := exists_skipped text
    rcases rest with _ | ⟨c, after⟩
    · rw [List.append_nil]
      exact ⟨[], .done hgap⟩
    · obtain ⟨kind, more, rest, rfl, hlexeme⟩ := exists_lexeme hrest
      obtain ⟨ts, hts⟩ := ih rest.length (by simp at hn; omega) (before ++ gap ++ c :: more) rest rfl
      exact ⟨_, .token hgap hlexeme hts⟩

/-- A word is an identifier or a keyword. -/
theorem match_keyword_ne {kind : TokenKind} (text : Bytes) (hword : kind ≠ .Identifier)
    (hkind : ∀ entry ∈ KEYWORDS, entry.2 ≠ kind) : match_keyword text ≠ kind := by
  unfold match_keyword
  split
  · rename_i word found hfind
    exact hkind _ (List.mem_of_find?_eq_some hfind)
  · exact hword.symm

theorem Lexeme.kind_ne_eof {kind : TokenKind} {text rest : Bytes} (h : Lexeme lax kind text rest) :
    kind ≠ .Eof := by
  cases h with
  | mark hsingle _ =>
    have hall : ∀ entry ∈ MARKS, entry.2 ≠ .Eof := by decide
    exact hall _ (mem_of_single hsingle)
  | double_mark hpair =>
    rcases pair_eq_some hpair with ⟨-, -, rfl⟩ | ⟨-, -, rfl⟩ | ⟨-, -, rfl⟩ <;> decide
  | string _ => decide
  | open_string _ => decide
  | word _ _ _ => exact match_keyword_ne _ (by decide) (by decide)
  | number _ _ _ _ _ => split <;> decide
  | unknown _ _ _ _ _ => decide

theorem Layout.next_nil {before rest : Bytes} (h : Layout lax before rest []) :
    (past before rest).next = (Token.after (before ++ rest) .Eof [], past (before ++ rest) []) := by
  cases h with
  | done hgap => exact scan_one_end hgap before

theorem Layout.next_cons {before rest : Bytes} {t : Token} {ts : List Token}
    (h : Layout lax before rest (t :: ts)) :
    ∃ after tail, (past before rest).next = (t, past after tail) ∧ Layout lax after tail ts ∧
      after ++ tail = before ++ rest ∧ tail.length < rest.length ∧ t.kind ≠ .Eof := by
  cases h with
  | @token _ gap text tail _ _ hgap hlexeme hts =>
    refine ⟨_, tail, scan_one_past hgap hlexeme before, hts, by simp, ?_, hlexeme.kind_ne_eof⟩
    have := List.length_pos_iff.mpr hlexeme.ne_nil
    simp
    omega

theorem layout_end (before : Bytes) : Layout lax before [] [] := .done .nil

theorem Layout.length_le {before rest : Bytes} {ts : List Token} (h : Layout lax before rest ts) :
    ts.length ≤ rest.length := by
  induction h with
  | done _ => exact Nat.zero_le _
  | token _ hlexeme _ ih =>
    have := List.length_pos_iff.mpr hlexeme.ne_nil
    simp
    omega

/-- The tokens up to the end of the source, for at most so many calls. -/
def tokens_within : Nat → Lexer → List Token
  | 0, _ => []
  | n + 1, lex =>
    if lex.next.1.kind = .Eof then [] else lex.next.1 :: tokens_within n lex.next.2

/-- The tokens of a source text, without the end. -/
def tokens (src : Bytes) : List Token := tokens_within src.length { rest := src }

theorem Layout.tokens_within_eq {before rest : Bytes} {ts : List Token} (h : Layout lax before rest ts) :
    ∀ n, rest.length ≤ n → tokens_within n (past before rest) = ts := by
  induction ts generalizing before rest with
  | nil =>
    intro n _
    cases n with
    | zero => rfl
    | succ n =>
      unfold tokens_within
      rw [h.next_nil]
      rfl
  | cons t ts ih =>
    intro n hn
    obtain ⟨after, tail, hnext, hts, -, hlength, hkind⟩ := h.next_cons
    obtain ⟨n, rfl⟩ : ∃ k, n = k + 1 := ⟨n - 1, by omega⟩
    unfold tokens_within
    rw [hnext, if_neg hkind, ih hts n (by omega)]

theorem tokens_eq_of_layout {src : Bytes} {ts : List Token} (h : Layout lax [] src ts) :
    tokens src = ts := h.tokens_within_eq _ le_rfl

theorem layout_tokens (src : Bytes) : Layout true [] src (tokens src) := by
  obtain ⟨ts, h⟩ := exists_layout [] src
  rwa [tokens_eq_of_layout h]

/-! ## Sequences of calls -/

inductive Access where
  | next
  | peek
  deriving DecidableEq, Repr

/-- The tokens that the `next` calls of a sequence return. -/
def replies : List Access → Lexer → List Token
  | [], _ => []
  | .next :: calls, lex => lex.next.1 :: replies calls lex.next.2
  | .peek :: calls, lex => replies calls lex.peek.2

/-- The lexer is at `lex`, or has looked ahead from there. -/
def Ahead (lex now : Lexer) : Prop := now = lex ∨ now = lex.peek.2

theorem ahead_peek {lex now : Lexer} (h : Ahead lex now) : now.peek.2 = lex.peek.2 := by
  rcases h with rfl | rfl
  · rfl
  · unfold peek
    cases hpeek : lex.peek_tok <;> simp [hpeek]

theorem ahead_next {lex now : Lexer} (hlex : lex.peek_tok = none) (hscan : lex.scan_one.2.peek_tok = none)
    (h : Ahead lex now) : now.next = lex.next := by
  rcases h with rfl | rfl
  · rfl
  · unfold next peek
    rw [hlex]
    dsimp only
    rw [← hscan]

/-- The calls of `next` go through the tokens and stay at the end, whatever is
looked at in between. -/
theorem Layout.replies_eq {before rest : Bytes} {ts : List Token} (h : Layout lax before rest ts)
    {now : Lexer} (hnow : Ahead (past before rest) now) (calls : List Access) :
    ∀ k, calls.count .next ≤ k → replies calls now =
      (ts ++ List.replicate k (Token.after (before ++ rest) .Eof [])).take (calls.count .next) := by
  induction calls generalizing before rest ts now with
  | nil => exact fun _ _ => rfl
  | cons call calls ih =>
    intro k hk
    cases call with
    | peek =>
      rw [List.count_cons_of_ne (by decide)] at hk ⊢
      exact ih h (Or.inr (ahead_peek hnow)) k hk
    | next =>
      rw [List.count_cons_self] at hk ⊢
      unfold replies
      cases ts with
      | nil =>
        have hend := h.next_nil
        have hsame := ahead_next rfl (show (past before rest).next.2.peek_tok = none by rw [hend]; rfl)
          hnow
        obtain ⟨k, rfl⟩ : ∃ m, k = m + 1 := ⟨k - 1, by omega⟩
        have hstay := ih (layout_end (before ++ rest)) (Or.inl rfl) k (by omega)
        rw [hsame, hend, hstay, List.append_nil]
        rfl
      | cons t ts =>
        obtain ⟨after, tail, hnext, hts, hwhole, -, -⟩ := h.next_cons
        have hsame := ahead_next rfl (show (past before rest).next.2.peek_tok = none by rw [hnext]; rfl)
          hnow
        have hrest := ih hts (Or.inl rfl) k (by omega)
        rw [hsame, hnext, hrest, hwhole]
        rfl

/-- A cut of a text that comes after `before` into tokens: each of them is some
bytes of it and names the place of the first one, and what is left between them
is blanks and comments. -/
inductive Cut : Bytes → Bytes → List Token → Prop
  | done {before gap : Bytes} : Skipped true gap [] → Cut before gap []
  | token {before gap rest : Bytes} {t : Token} {ts : List Token} :
      Skipped true gap (t.text ++ rest) → t.text ≠ [] → t.kind ≠ .Eof →
      t.line = line_after (before ++ gap) → t.col = col_after (before ++ gap) →
      Cut (before ++ gap ++ t.text) rest ts → Cut before (gap ++ (t.text ++ rest)) (t :: ts)

/-- In a source of less than 4 GiB no counter goes round. -/
theorem Layout.cut {before rest : Bytes} {ts : List Token} (h : Layout true before rest ts)
    (hsmall : (before ++ rest).length < 2 ^ 32) : Cut before rest ts := by
  induction h with
  | done hgap => exact .done hgap
  | @token before gap text rest kind ts hgap hlexeme _ ih =>
    have hpos := List.length_pos_iff.mpr hlexeme.ne_nil
    have hline := line_after_le (before ++ gap)
    have hcol := col_after_le (before ++ gap)
    simp only [List.length_append] at hsmall hline hcol
    have hcut := ih (by simp only [List.length_append]; omega)
    exact .token (t := Token.after (before ++ gap) kind text) hgap hlexeme.ne_nil
      hlexeme.kind_ne_eof (Nat.mod_eq_of_lt (by omega)) (Nat.mod_eq_of_lt (by omega)) hcut

/-- The lexer cuts every source of less than 4 GiB. However `next` and `peek`
are called, the `next` calls return the tokens of the cut one after the other,
and then the end, again and again. -/
theorem lexer_cuts_the_source (src : Bytes) (hsmall : src.length < 2 ^ 32) :
    ∃ (ts : List Token) (eof : Token), Cut [] src ts ∧ eof.kind = .Eof ∧
      ∀ calls : List Access, replies calls { rest := src } =
        (ts ++ List.replicate calls.length eof).take (calls.count .next) :=
  ⟨tokens src, Token.after src .Eof [], (layout_tokens src).cut hsmall, rfl, fun calls =>
    (layout_tokens src).replies_eq (Or.inl rfl) calls calls.length List.count_le_length⟩

theorem lexer_cuts_a_select :
    ∃ (ts : List Token) (eof : Token), Cut [] (str "SELECT a -- all\nFROM t") ts ∧ eof.kind = .Eof ∧
      ∀ calls : List Access, replies calls { rest := str "SELECT a -- all\nFROM t" } =
        (ts ++ List.replicate calls.length eof).take (calls.count .next) :=
  lexer_cuts_the_source _ (by decide)

end Lexer

end edb
