-- The case of letters. Keywords and the names of types may be written in any
-- case: the lexer finds the same tokens, the parser the same statements up to
-- the names of types, and the binder the same types. Only the two words of
-- DOUBLE PRECISION have to be written in one case each.
import Edb.ParserStmts
import Edb.Binder

namespace edb

namespace Lexer

/-! ## Bytes -/

theorem is_alpha_iff {b : UInt8} : is_alpha b = true ↔
    (65 ≤ b.toNat ∧ b.toNat ≤ 90) ∨ (97 ≤ b.toNat ∧ b.toNat ≤ 122) := by
  have hA : (chr 'A').toNat = 65 := rfl
  have hZ : (chr 'Z').toNat = 90 := rfl
  have ha : (chr 'a').toNat = 97 := rfl
  have hz : (chr 'z').toNat = 122 := rfl
  simp only [is_alpha, decide_eq_true_eq, UInt8.le_iff_toNat_le, hA, hZ, ha, hz]

theorem toNat_to_lower (b : UInt8) : (to_lower b).toNat =
    if 65 ≤ b.toNat ∧ b.toNat ≤ 90 then b.toNat + 32 else b.toNat := by
  have hA : (chr 'A').toNat = 65 := rfl
  have hZ : (chr 'Z').toNat = 90 := rfl
  have hgap : (chr 'a' - chr 'A').toNat = 32 := rfl
  simp only [to_lower, UInt8.le_iff_toNat_le, hA, hZ]
  split
  · rw [UInt8.toNat_add, hgap]
    omega
  · rfl

/-- Two bytes that differ only in case are letters. -/
theorem eq_or_letters {a b : UInt8} (h : to_lower a = to_lower b) :
    a = b ∨ (is_alpha a = true ∧ is_alpha b = true) := by
  have hnat := congrArg UInt8.toNat h
  rw [toNat_to_lower, toNat_to_lower] at hnat
  rw [is_alpha_iff, is_alpha_iff, ← UInt8.toNat_inj]
  split at hnat <;> split at hnat <;> omega

/-- A class that all letters are in, or none, does not see the case. -/
theorem class_eq {p : UInt8 → Bool} {v : Bool} (hp : ∀ c, is_alpha c = true → p c = v) {a b : UInt8}
    (h : to_lower a = to_lower b) : p a = p b := by
  rcases eq_or_letters h with rfl | ⟨ha, hb⟩
  · rfl
  · rw [hp a ha, hp b hb]

theorem letter_ne {c d : UInt8} (hd : is_alpha d = false) (hc : is_alpha c = true) :
    (c == d) = false := by
  rw [beq_eq_false_iff_ne]
  rintro rfl
  rw [hd] at hc
  cases hc

theorem digit_letter (c : UInt8) (hc : is_alpha c = true) : dec.is_digit c = false := by
  refine Bool.eq_false_iff.mpr fun hdigit => ?_
  have hstart := is_ident_start_of_is_digit hdigit
  unfold is_ident_start at hstart
  rw [hc] at hstart
  cases hstart

theorem ident_char_letter (c : UInt8) (hc : is_alpha c = true) : is_ident_char c = true := by
  simp [is_ident_char, hc]

theorem ident_start_letter (c : UInt8) (hc : is_alpha c = true) : is_ident_start c = true := by
  simp [is_ident_start, hc]

theorem sign_letter (c : UInt8) (hc : is_alpha c = true) : is_sign c = false := by
  have hplus := letter_ne (d := chr '+') (by decide) hc
  have hminus := letter_ne (d := chr '-') (by decide) hc
  simp [is_sign, hplus, hminus]

theorem pair_letter (a : UInt8) (c : UInt8) (hc : is_alpha c = true) : (pair a c).isNone = true := by
  have heq : c ≠ chr '=' := beq_eq_false_iff_ne.mp (letter_ne (by decide) hc)
  have hgt : c ≠ chr '>' := beq_eq_false_iff_ne.mp (letter_ne (by decide) hc)
  simp [pair, heq, hgt]

theorem exponent_mark_eq {a b : UInt8} (h : to_lower a = to_lower b) :
    is_exponent_mark a = is_exponent_mark b := by
  have hmark : ∀ c, is_exponent_mark c = (to_lower c == chr 'e') := by
    intro c
    have he : (chr 'e').toNat = 101 := rfl
    have hE : (chr 'E').toNat = 69 := rfl
    have hlower := toNat_to_lower c
    rw [Bool.eq_iff_iff]
    simp only [is_exponent_mark, Bool.or_eq_true, beq_iff_eq, ← UInt8.toNat_inj, he, hE]
    split at hlower <;> omega
  rw [hmark, hmark, h]

/-! ## Texts -/

/-- The texts differ only in case. -/
def SameLetters (s s' : Bytes) : Prop := s'.map to_lower = s.map to_lower

namespace SameLetters

variable {s s' u u' : Bytes}

theorem append (h : SameLetters s s') (h' : SameLetters u u') : SameLetters (s ++ u) (s' ++ u') := by
  unfold SameLetters at *
  rw [List.map_append, List.map_append, h, h']

theorem after (h : SameLetters s s') (front : Bytes) : SameLetters (front ++ s) (front ++ s') :=
  append rfl h

theorem symm (h : SameLetters s s') : SameLetters s' s := Eq.symm h

theorem of_text {free : Prop} (h : s' = s ∨ (free ∧ SameLetters s s')) : SameLetters s s' := by
  rcases h with rfl | ⟨-, h⟩
  · rfl
  · exact h

theorem head (h : SameLetters s s') {b : UInt8} (hb : b ∈ s'.head?) :
    ∃ c ∈ s.head?, to_lower c = to_lower b := by
  unfold SameLetters at h
  rcases s' with _ | ⟨b', s'⟩
  · cases hb
  · rcases s with _ | ⟨c, s⟩
    · cases h
    · cases hb
      exact ⟨c, rfl, (List.cons.inj h).1.symm⟩

/-- What a class says of the next byte. -/
theorem next (h : SameLetters s s') {p : UInt8 → Bool} {w v : Bool}
    (hp : ∀ c, is_alpha c = true → p c = v) (hs : ∀ b ∈ s.head?, p b = w) :
    ∀ b ∈ s'.head?, p b = w := by
  intro b hb
  obtain ⟨c, hc, hcb⟩ := h.head hb
  rw [← class_eq hp hcb]
  exact hs c hc

theorem head_ne (h : SameLetters s s') {d : UInt8} (hd : is_alpha d = false)
    (hs : s.head? ≠ some d) : s'.head? ≠ some d := by
  intro hs'
  have hnext := h.next (p := fun b => b == d) (w := false) (fun c => letter_ne hd) fun b hb => by
    rw [beq_eq_false_iff_ne]
    rintro rfl
    exact hs hb
  simpa using hnext d hs'

end SameLetters

section

variable {lax : Bool} {gap text text' rest rest' : Bytes} {kind : TokenKind}

theorem Skipped.same_letters (h : Skipped lax gap rest) (hrest : SameLetters rest rest') :
    Skipped lax gap rest' := by
  induction h with
  | nil => exact .nil
  | blank hb _ ih => exact .blank hb (ih hrest)
  | @line body gap rest hbody hend _ ih =>
    refine .line hbody (fun b hb => ?_) (ih hrest)
    have hnext := (hrest.after gap).next (p := fun b => b == chr '\n') (w := true)
      (fun c => letter_ne (by decide)) (by simpa using hend)
    exact eq_of_beq (hnext b hb)
  | block hbody _ ih => exact .block hbody (ih hrest)
  | open_block hlax hbody =>
    obtain rfl : rest' = [] := by simpa [SameLetters] using hrest
    exact .open_block hlax hbody

theorem Fraction.same_letters (h : Fraction gap rest) (hrest : SameLetters rest rest') :
    Fraction gap rest' := by
  cases h with
  | none hnone =>
    refine .none fun d after hd => ?_
    subst hd
    rcases rest with _ | ⟨b, _ | ⟨c, rest⟩⟩
    · cases hrest
    · cases (List.cons.inj hrest).2
    · obtain ⟨hb, htail⟩ := List.cons.inj hrest
      have hc := (List.cons.inj htail).1
      have hpoint : b = chr '.' := by
        have hclass := class_eq (p := fun x => x == chr '.') (fun c => letter_ne (by decide)) hb
        exact eq_of_beq (hclass.symm.trans (by decide))
      rw [class_eq digit_letter hc]
      exact hnone c rest (by rw [hpoint])
  | some hne hds hnext => exact .some hne hds (hrest.next digit_letter hnext)

theorem Exponent.same_letters (h : Exponent lax gap rest) (hrest : SameLetters rest rest') :
    Exponent lax gap rest' := by
  cases h with
  | none hnone =>
    refine .none fun b hb => ?_
    obtain ⟨c, hc, hcb⟩ := hrest.head hb
    rw [← exponent_mark_eq hcb]
    exact hnone c hc
  | unsigned hmark hsign hds hne hnext =>
    exact .unsigned hmark ((hrest.after _).next sign_letter hsign) hds hne
      (hrest.next digit_letter hnext)
  | signed hmark hsign hds hne hnext =>
    exact .signed hmark hsign hds hne (hrest.next digit_letter hnext)

/-- A token ends where it ended. -/
theorem Lexeme.same_letters (h : Lexeme lax kind text rest) (hrest : SameLetters rest rest') :
    Lexeme lax kind text rest' := by
  cases h with
  | @mark c _ _ hsingle hpair =>
    refine .mark hsingle fun d hd => ?_
    have hnext := hrest.next (pair_letter c) (w := true) fun b hb => by simp [hpair b hb]
    simpa using hnext d hd
  | double_mark hpair => exact .double_mark hpair
  | string hquote => exact .string (hrest.head_ne (by decide) hquote)
  | open_string hlax =>
    obtain rfl : rest' = [] := by simpa [SameLetters] using hrest
    exact .open_string hlax
  | word hc hcs hnext => exact .word hc hcs (hrest.next ident_char_letter hnext)
  | @number c whole fraction exponent _ hc hwhole hnext hfraction hexponent =>
    exact .number hc hwhole ((hrest.after _).next digit_letter hnext)
      (hfraction.same_letters (hrest.after _)) (hexponent.same_letters hrest)
  | unknown hbegins hsingle hquote hword hdigit =>
    refine .unknown (fun c after hafter => ?_) hsingle hquote hword hdigit
    cases hafter
    obtain ⟨hblank, hline, hblock⟩ := hbegins _ _ rfl
    refine ⟨hblank, fun h => ?_, fun h => ?_⟩
    · exact hrest.head_ne (by decide) (fun hs => hline ⟨h.1, hs⟩) h.2
    · exact hrest.head_ne (by decide) (fun hs => hblock ⟨h.1, hs⟩) h.2

end

/-! ## Words in another case -/

def is_keyword (kind : TokenKind) : Bool := KEYWORDS.any fun entry => entry.2 == kind

/-- The words whose case is free: keywords, and a name right after another one,
which is where a column definition has its type. -/
def Free (prev kind : TokenKind) : Prop :=
  is_keyword kind = true ∨ (prev = .Identifier ∧ kind = .Identifier)

theorem free_name_iff {prev : TokenKind} : Free prev .Identifier ↔ prev = .Identifier := by
  simp [Free, show is_keyword .Identifier = false by decide]

theorem word_of_free {lax : Bool} {prev kind : TokenKind} {text rest : Bytes}
    (h : Lexeme lax kind text rest) (hfree : Free prev kind) :
    ∃ c cs, text = c :: cs ∧ kind = match_keyword (((c :: cs).take max_kw_len).map to_lower) ∧
      is_ident_start c = true ∧ (∀ b ∈ cs, is_ident_char b = true) ∧
      ∀ b ∈ rest.head?, is_ident_char b = false := by
  have hword : is_keyword kind = true ∨ kind = .Identifier := hfree.imp_right And.right
  cases h with
  | mark hsingle _ =>
    have hmarks : ∀ entry ∈ MARKS, ¬ (is_keyword entry.2 = true ∨ entry.2 = .Identifier) := by decide
    exact absurd hword (hmarks _ (mem_of_single hsingle))
  | double_mark hpair =>
    rcases pair_eq_some hpair with ⟨-, -, rfl⟩ | ⟨-, -, rfl⟩ | ⟨-, -, rfl⟩ <;>
      exact absurd hword (by decide)
  | string _ => exact absurd hword (by decide)
  | open_string _ => exact absurd hword (by decide)
  | word hc hcs hnext => exact ⟨_, _, rfl, rfl, hc, hcs, hnext⟩
  | number _ _ _ _ _ => split at hword <;> exact absurd hword (by decide)
  | unknown _ _ _ _ _ => exact absurd hword (by decide)

/-- A word in another case is a token of the same kind. -/
theorem Lexeme.respelled {lax : Bool} {prev kind : TokenKind} {text text' rest : Bytes}
    (h : Lexeme lax kind text rest) (hfree : Free prev kind) (htext : SameLetters text text') :
    Lexeme lax kind text' rest := by
  obtain ⟨c, cs, rfl, rfl, hc, hcs, hnext⟩ := word_of_free h hfree
  rcases text' with _ | ⟨c', cs'⟩
  · cases htext
  · have hkind : ((c :: cs).take max_kw_len).map to_lower =
        ((c' :: cs').take max_kw_len).map to_lower := by
      rw [List.map_take, List.map_take, htext]
    obtain ⟨hfirst, hmore⟩ := List.cons.inj htext
    rw [hkind]
    refine .word ?_ (fun b hb => ?_) hnext
    · rw [class_eq ident_start_letter hfirst, hc]
    · obtain ⟨b', hb', hlower⟩ : ∃ b' ∈ cs, to_lower b' = to_lower b :=
        List.mem_map.mp (hmore ▸ List.mem_map_of_mem hb)
      rw [← class_eq ident_char_letter hlower]
      exact hcs b' hb'

/-- The second text is the first one with other letters in some keywords and in
some names of types. Blanks and comments are the same. -/
inductive Recased : TokenKind → Bytes → Bytes → Prop
  | done {prev : TokenKind} {gap : Bytes} : Skipped true gap [] → Recased prev gap gap
  | token {prev kind : TokenKind} {gap text text' rest rest' : Bytes} :
      Skipped true gap (text ++ rest) → Lexeme true kind text rest →
      text' = text ∨ (Free prev kind ∧ SameLetters text text') → Recased kind rest rest' →
      Recased prev (gap ++ (text ++ rest)) (gap ++ (text' ++ rest'))

/-- The tokens are the same but for the case of free words. -/
inductive Respelled : TokenKind → List Token → List Token → Prop
  | nil {prev : TokenKind} : Respelled prev [] []
  | cons {prev : TokenKind} {t t' : Token} {ts ts' : List Token} :
      t'.kind = t.kind → t'.text = t.text ∨ (Free prev t.kind ∧ SameLetters t.text t'.text) →
      Respelled t.kind ts ts' → Respelled prev (t :: ts) (t' :: ts')

theorem Recased.same_letters {prev : TokenKind} {src src' : Bytes} (h : Recased prev src src') :
    SameLetters src src' := by
  induction h with
  | done _ => rfl
  | token _ _ htext _ ih =>
    exact .after (.append (.of_text htext) ih) _

/-- The lexer finds the tokens of the first text in the second one. -/
theorem Recased.layouts {prev : TokenKind} {src src' : Bytes} (h : Recased prev src src')
    (before before' : Bytes) :
    ∃ ts ts', Layout true before src ts ∧ Layout true before' src' ts' ∧ Respelled prev ts ts' := by
  induction h generalizing before before' with
  | done hgap => exact ⟨[], [], .done hgap, .done hgap, .nil⟩
  | @token prev kind gap text text' rest rest' hgap hlexeme htext hrest ih =>
    obtain ⟨ts, ts', hts, hts', hspelled⟩ := ih (before ++ gap ++ text) (before' ++ gap ++ text')
    have hletters := hrest.same_letters
    have hlexeme' : Lexeme true kind text' rest' := by
      rcases htext with rfl | ⟨hfree, htext⟩
      · exact hlexeme.same_letters hletters
      · exact (hlexeme.respelled hfree htext).same_letters hletters
    have hgap' : Skipped true gap (text' ++ rest') :=
      hgap.same_letters (.append (.of_text htext) hletters)
    exact ⟨_, _, .token hgap hlexeme hts, .token hgap' hlexeme' hts', .cons rfl htext hspelled⟩

theorem Recased.tokens {src src' : Bytes} (h : Recased .Eof src src') :
    Respelled .Eof (tokens src) (tokens src') := by
  obtain ⟨ts, ts', hts, hts', hspelled⟩ := h.layouts [] []
  rwa [tokens_eq_of_layout hts, tokens_eq_of_layout hts']

namespace Respelled

variable {prev : TokenKind} {ts ts' u v : List Token}

theorem symm (h : Respelled prev ts ts') : Respelled prev ts' ts := by
  induction h with
  | nil => exact .nil
  | cons hkind htext _ ih =>
    refine .cons hkind.symm ?_ (hkind.symm ▸ ih)
    rw [hkind]
    exact htext.imp Eq.symm fun h => ⟨h.1, h.2.symm⟩

theorem cons_inv {t : Token} (h : Respelled prev (t :: ts) ts') :
    ∃ t' us, ts' = t' :: us ∧ t'.kind = t.kind ∧
      (t'.text = t.text ∨ (Free prev t.kind ∧ SameLetters t.text t'.text)) ∧
      Respelled t.kind ts us := by
  cases h with
  | cons hkind htext hrest => exact ⟨_, _, rfl, hkind, htext, hrest⟩

theorem nil_inv (h : Respelled prev [] ts') : ts' = [] := by
  cases h
  rfl

theorem one_inv {t : Token} (h : Respelled prev [t] ts') :
    ∃ t', ts' = [t'] ∧ t'.kind = t.kind ∧
      (t'.text = t.text ∨ (Free prev t.kind ∧ SameLetters t.text t'.text)) := by
  obtain ⟨t', us, rfl, hkind, htext, hrest⟩ := h.cons_inv
  obtain rfl := hrest.nil_inv
  exact ⟨t', rfl, hkind, htext⟩

/-- The kind of the last token that was seen. -/
def last_kind (prev : TokenKind) : List Token → TokenKind
  | [] => prev
  | t :: ts => last_kind t.kind ts

theorem append_inv (h : Respelled prev (u ++ v) ts') :
    ∃ u' v', ts' = u' ++ v' ∧ Respelled prev u u' ∧ Respelled (last_kind prev u) v v' := by
  induction u generalizing prev ts' with
  | nil => exact ⟨[], ts', rfl, .nil, h⟩
  | cons t u ih =>
    obtain ⟨t', us, rfl, hkind, htext, hrest⟩ := h.cons_inv
    obtain ⟨u', v', rfl, hu, hv⟩ := ih hrest
    exact ⟨t' :: u', v', rfl, .cons hkind htext hu, hv⟩

theorem kinds (h : Respelled prev ts ts') : ts'.map Token.kind = ts.map Token.kind := by
  induction h with
  | nil => rfl
  | cons hkind _ _ ih => rw [List.map_cons, List.map_cons, hkind, ih]

end Respelled

/-- A name that comes after something else is the same name. -/
theorem name_of_respelled {prev : TokenKind} {t t' : Token} (hprev : prev ≠ .Identifier)
    (hname : t.kind = .Identifier)
    (h : t'.text = t.text ∨ (Free prev t.kind ∧ SameLetters t.text t'.text)) : t'.text = t.text := by
  rcases h with h | ⟨hfree, -⟩
  · exact h
  · rw [hname] at hfree
    exact absurd (free_name_iff.mp hfree) hprev

end Lexer

open Lexer Grammar

/-! ## DOUBLE PRECISION -/

/-- The two words of the type as the parser knows them. -/
def IsDouble (d p : Token) : Prop :=
  (d.text = str "double" ∨ d.text = str "DOUBLE") ∧
    (p.text = str "precision" ∨ p.text = str "PRECISION")

/-- Of three names in a row the second and the third are the two words of DOUBLE
PRECISION, each of them in one case. -/
def Spelled : List Token → Prop
  | x :: y :: z :: ts =>
    (x.kind = .Identifier → y.kind = .Identifier → z.kind = .Identifier → IsDouble y z) ∧
      Spelled (y :: z :: ts)
  | _ => True

instance decidableSpelled : (ts : List Token) → Decidable (Spelled ts)
  | [] => .isTrue trivial
  | [_] => .isTrue trivial
  | [_, _] => .isTrue trivial
  | _ :: y :: z :: ts =>
    have := decidableSpelled (y :: z :: ts)
    inferInstanceAs (Decidable ((_ → _ → _ → (_ ∨ _) ∧ (_ ∨ _)) ∧ _))

theorem Spelled.tail {t : Token} {ts : List Token} (h : Spelled (t :: ts)) : Spelled ts := by
  rcases ts with _ | ⟨y, _ | ⟨z, ts⟩⟩
  · trivial
  · trivial
  · exact h.2

theorem Spelled.right {u v : List Token} (h : Spelled (u ++ v)) : Spelled v := by
  induction u with
  | nil => exact h
  | cons t u ih => exact ih h.tail

theorem Spelled.left {u v : List Token} (h : Spelled (u ++ v)) : Spelled u := by
  induction u with
  | nil => trivial
  | cons x u ih =>
    rcases u with _ | ⟨y, _ | ⟨z, u⟩⟩
    · trivial
    · trivial
    · exact ⟨h.1, ih h.2⟩

/-- A token that is not a name parts the text. -/
theorem spelled_append_cons {u v : List Token} {t : Token} (ht : t.kind ≠ .Identifier)
    (hu : Spelled u) (hv : Spelled v) : Spelled (u ++ t :: v) := by
  have hafter : Spelled (t :: v) := by
    rcases v with _ | ⟨y, _ | ⟨z, v⟩⟩
    · trivial
    · trivial
    · exact ⟨fun h => absurd h ht, hv⟩
  induction u with
  | nil => exact hafter
  | cons x u ih =>
    rcases u with _ | ⟨y, _ | ⟨z, u⟩⟩
    · rcases v with _ | ⟨y, v⟩
      · trivial
      · exact ⟨fun _ h => absurd h ht, hafter⟩
    · exact ⟨fun _ _ h => absurd h ht, ih trivial⟩
    · exact ⟨hu.1, ih hu.2⟩

/-! ## The same statements -/

/-- The definitions differ in how the name of the type is written. -/
structure SameColumn (d d' : ColumnDef) : Prop where
  name : d'.name = d.name
  type : canonical_type_name d'.type = canonical_type_name d.type
  param : d'.type.param = d.type.param
  not_null : d'.not_null = d.not_null
  primary_key : d'.primary_key = d.primary_key
  unique_constraint : d'.unique_constraint = d.unique_constraint

inductive SameStmt : Stmt → Stmt → Prop
  | create_table {table_name : Bytes} {columns columns' : List ColumnDef} {if_not_exists : Bool} :
      List.Forall₂ SameColumn columns columns' →
      SameStmt (.create_table { table_name, columns, if_not_exists })
        (.create_table { table_name, columns := columns', if_not_exists })
  | refl {s : Stmt} : SameStmt s s

theorem SameColumn.apply {d d' : ColumnDef} (h : SameColumn d d') (c : Constraint) :
    SameColumn (c.apply d) (c.apply d') := by
  obtain ⟨h1, h2, h3, h4, h5, h6⟩ := h
  cases c
  · exact ⟨h1, h2, h3, rfl, h5, h6⟩
  · exact ⟨h1, h2, h3, rfl, h5, h6⟩
  · exact ⟨h1, h2, h3, rfl, rfl, h6⟩
  · exact ⟨h1, h2, h3, h4, h5, rfl⟩

theorem SameColumn.constrained {d d' : ColumnDef} (h : SameColumn d d') (cs : List Constraint) :
    SameColumn (cs.foldl (fun col c => c.apply col) d) (cs.foldl (fun col c => c.apply col) d') := by
  induction cs generalizing d d' with
  | nil => exact h
  | cons c cs ih => exact ih (h.apply c)

namespace Grammar

variable {prev : TokenKind} {w w' : List Token}

/-- A keyword stands for the same literal in any case. -/
theorem literal_of_respelled {t t' : Token} (hkind : t'.kind = t.kind)
    (htext : t'.text = t.text ∨ (Free prev t.kind ∧ SameLetters t.text t'.text)) :
    t'.literal = t.literal := by
  unfold Token.literal
  rw [hkind]
  rcases htext with htext | ⟨hfree, -⟩
  · rw [htext]
  · have hword := hfree.imp_right And.right
    cases hk : t.kind <;> rw [hk] at hword <;> first | rfl | exact absurd hword (by decide)

theorem Derives.respelled {n : Nonterminal} {e : Expr} (h : Derives parser_rules n w e)
    (hprev : prev ≠ .Identifier) (hw : Respelled prev w w') : Derives parser_rules n w' e := by
  induction h generalizing prev w' with
  | operand j _ ih => exact .operand j (ih hprev hw)
  | @joined _ _ kind _ left right t _ _ j _ hkind _ ih1 ih2 =>
    obtain ⟨left', v', rfl, hleft, hv⟩ := hw.append_inv
    obtain ⟨t', right', rfl, hkind', -, hright⟩ := hv.cons_inv
    have hjoin : t.kind ≠ .Identifier := by
      rw [hkind]
      cases j <;> decide
    exact .joined j (ih1 hprev hleft) (hkind'.trans hkind) (ih2 hjoin hright)
  | alone _ ih => exact .alone (ih hprev hw)
  | @compared op left right t _ _ _ hop _ ih1 ih2 =>
    obtain ⟨left', v', rfl, hleft, hv⟩ := hw.append_inv
    obtain ⟨t', right', rfl, hkind', -, hright⟩ := hv.cons_inv
    have hname : t.kind ≠ .Identifier := by
      intro hname
      rw [hname] at hop
      cases hop
    exact .compared (ih1 hprev hleft) (by rwa [hkind']) (ih2 hname hright)
  | @literal t value hvalue =>
    obtain ⟨t', rfl, hkind, htext⟩ := hw.one_inv
    have hsame : t'.literal = t.literal := literal_of_respelled hkind htext
    exact .literal (hsame.trans hvalue)
  | @column t hkind =>
    obtain ⟨t', rfl, hkind', htext⟩ := hw.one_inv
    rw [← name_of_respelled hprev hkind htext]
    exact .column (hkind'.trans hkind)
  | @parens lp rp _ _ hlp _ hrp ih =>
    obtain ⟨lp', v', rfl, hlp', -, hv⟩ := hw.cons_inv
    obtain ⟨u', x', rfl, hu, hx⟩ := hv.append_inv
    obtain ⟨rp', rfl, hrp', -⟩ := hx.one_inv
    exact .parens (hlp'.trans hlp) (ih (by rw [hlp]; decide) hu) (hrp'.trans hrp)

section

variable {α : Type} {element : List Token → α → Prop} {R : α → α → Prop} {xs : List α}

/-- Elements in another case are elements that are related to the first ones. -/
def Element (element : List Token → α → Prop) (R : α → α → Prop) : Prop :=
  ∀ {prev v v' x}, element v x → prev ≠ .Identifier → Respelled prev v v' → Spelled v' →
    ∃ x', element v' x' ∧ R x x'

theorem Separated.respelled (helement : Element element R) (h : Separated element w xs)
    (hprev : prev ≠ .Identifier) (hw : Respelled prev w w') (hs : Spelled w') :
    ∃ xs', Separated element w' xs' ∧ List.Forall₂ R xs xs' := by
  induction h generalizing prev w' with
  | one hx =>
    obtain ⟨x', hx', hR⟩ := helement hx hprev hw hs
    exact ⟨[x'], .one hx', .cons hR .nil⟩
  | @more v ws x xs c hx hc _ ih =>
    obtain ⟨v', u', rfl, hv, hu⟩ := hw.append_inv
    obtain ⟨c', ws', rfl, hc', -, hws⟩ := hu.cons_inv
    obtain ⟨x', hx', hR⟩ := helement hx hprev hv hs.left
    obtain ⟨xs', hxs', hall⟩ := ih (by rw [hc]; decide) hws hs.right.tail
    exact ⟨x' :: xs', .more hx' (hc'.trans hc) hxs', .cons hR hall⟩

theorem Listed.respelled {loose : Bool} (helement : Element element R) (h : Listed element loose w xs)
    (hprev : prev ≠ .Identifier) (hw : Respelled prev w w') (hs : Spelled w') :
    ∃ xs', Listed element loose w' xs' ∧ List.Forall₂ R xs xs' := by
  cases h with
  | separated hsep =>
    obtain ⟨xs', hxs', hall⟩ := hsep.respelled helement hprev hw hs
    exact ⟨xs', .separated hxs', hall⟩
  | empty hloose =>
    obtain rfl := hw.nil_inv
    exact ⟨[], .empty hloose, .nil⟩
  | trailing hloose hsep hc =>
    obtain ⟨v', u', rfl, hv, hu⟩ := hw.append_inv
    obtain ⟨c', rfl, hc', -⟩ := hu.one_inv
    obtain ⟨xs', hxs', hall⟩ := hsep.respelled helement hprev hv hs.left
    exact ⟨xs', .trailing hloose hxs' (hc'.trans hc), hall⟩

/-- Elements that stay what they are. -/
theorem element_of_eq (h : ∀ {prev v v' x}, element v x → prev ≠ .Identifier → Respelled prev v v' →
    element v' x) : Element element (Eq : α → α → Prop) :=
  fun hx hprev hv _ => ⟨_, h hx hprev hv, rfl⟩

theorem Listed.respelled_eq {loose : Bool} (helement : Element element Eq)
    (h : Listed element loose w xs) (hprev : prev ≠ .Identifier) (hw : Respelled prev w w')
    (hs : Spelled w') : Listed element loose w' xs := by
  obtain ⟨xs', hxs', hall⟩ := h.respelled helement hprev hw hs
  rw [List.forall₂_eq_eq_eq] at hall
  rwa [hall]

theorem Separated.respelled_eq (helement : Element element Eq) (h : Separated element w xs)
    (hprev : prev ≠ .Identifier) (hw : Respelled prev w w') (hs : Spelled w') :
    Separated element w' xs := by
  obtain ⟨xs', hxs', hall⟩ := h.respelled helement hprev hw hs
  rw [List.forall₂_eq_eq_eq] at hall
  rwa [hall]

end

theorem ConstraintsOf.of_kinds {cs : List Constraint} (h : ConstraintsOf w cs)
    (hw : w'.map Token.kind = w.map Token.kind) : ConstraintsOf w' cs := by
  induction h generalizing w' with
  | nil =>
    obtain rfl : w' = [] := by simpa using hw
    exact .nil
  | cons hkinds _ ih =>
    rw [List.map_append] at hw
    obtain ⟨u, v, rfl, hu, hv⟩ := List.map_eq_append_iff.mp hw
    exact .cons (hu.trans hkinds) (ih hv)

theorem canonical_of_same_letters {s s' : Bytes} (h : SameLetters s s') (p p' : Option Nat) :
    canonical_type_name ⟨s', p'⟩ = canonical_type_name ⟨s, p⟩ := by
  have hlower : lower_ascii s' = lower_ascii s := h
  simp only [canonical_type_name, hlower]

/-- The type after a name is the same type. -/
theorem TypeOf.respelled {type : TypeName} (h : TypeOf w type) (hw : Respelled .Identifier w w')
    {name : Token} (hname : name.kind = .Identifier) (hs : Spelled (name :: w')) :
    ∃ type', TypeOf w' type' ∧ canonical_type_name type' = canonical_type_name type ∧
      type'.param = type.param := by
  cases h with
  | @plain t ht =>
    obtain ⟨t', rfl, hkind, htext⟩ := hw.one_inv
    exact ⟨_, .plain (hkind.trans ht), canonical_of_same_letters (.of_text htext) _ _, rfl⟩
  | @double_precision d p hd _ hp _ =>
    obtain ⟨d', v', rfl, hd', -, hv⟩ := hw.cons_inv
    obtain ⟨p', rfl, hp', -⟩ := hv.one_inv
    have hdouble := hs.1 hname (hd'.trans hd) (hp'.trans hp)
    exact ⟨_, .double_precision (hd'.trans hd) hdouble.1 (hp'.trans hp) hdouble.2, rfl, rfl⟩
  | @param t lp n rp value ht hlp hn hvalue hrp =>
    obtain ⟨t', v1, rfl, ht', htext, hv1⟩ := hw.cons_inv
    obtain ⟨lp', v2, rfl, hlp', -, hv2⟩ := hv1.cons_inv
    obtain ⟨n', v3, rfl, hn', hnumber, hv3⟩ := hv2.cons_inv
    obtain ⟨rp', rfl, hrp', -⟩ := hv3.one_inv
    have hsame : n'.text = n.text := by
      rcases hnumber with hnumber | ⟨hfree, -⟩
      · exact hnumber
      · rw [hn] at hfree
        exact absurd (hfree.imp_right And.right) (by decide)
    exact ⟨_, .param (ht'.trans ht) (hlp'.trans hlp) (hn'.trans hn) (hsame ▸ hvalue)
      (hrp'.trans hrp), canonical_of_same_letters (.of_text htext) _ _, rfl⟩

theorem ColumnOf.respelled : Element ColumnOf SameColumn := by
  intro prev v v' d h hprev hv hs
  cases h with
  | @mk name _ _ type _ hname htype hconstraints =>
    obtain ⟨name', u', rfl, hkind, htext, hu⟩ := hv.cons_inv
    obtain ⟨type', cs', rfl, hty, hcs⟩ := hu.append_inv
    rw [hname] at hty
    rw [← List.cons_append] at hs
    obtain ⟨typed, htyped, hcanonical, hparam⟩ := htype.respelled hty (hkind.trans hname) hs.left
    have hcolumn : SameColumn { name := name.text, type } { name := name'.text, type := typed } :=
      ⟨name_of_respelled hprev hname htext, hcanonical, hparam, rfl, rfl, rfl⟩
    exact ⟨_, .mk (hkind.trans hname) htyped (hconstraints.of_kinds hcs.kinds),
      hcolumn.constrained _⟩

theorem NameOf.respelled : Element NameOf Eq := by
  refine element_of_eq fun {prev v v' x} h hprev hv => ?_
  cases h with
  | mk hname =>
    obtain ⟨t', rfl, hkind, htext⟩ := hv.one_inv
    rw [← name_of_respelled hprev hname htext]
    exact .mk (hkind.trans hname)

theorem exprs_respelled : Element (Derives parser_rules .or_expr) Eq :=
  element_of_eq fun h hprev hv => h.respelled hprev hv

theorem RowOf.respelled : Element (RowOf parser_rules) Eq := by
  intro prev v v' x h _ hv hs
  cases h with
  | mk hlp hexprs hrp =>
    obtain ⟨lp', u', rfl, hlp', -, hu⟩ := hv.cons_inv
    obtain ⟨inside', y', rfl, hinside, hy⟩ := hu.append_inv
    obtain ⟨rp', rfl, hrp', -⟩ := hy.one_inv
    have hlist := hexprs.respelled_eq exprs_respelled (by rw [hlp]; decide) hinside hs.tail.left
    exact ⟨_, .mk (hlp'.trans hlp) hlist (hrp'.trans hrp), rfl⟩

theorem ItemOf.respelled : Element (ItemOf parser_rules) Eq := by
  refine element_of_eq fun {prev v v' x} h hprev hv => ?_
  cases h with
  | star ht =>
    obtain ⟨t', rfl, hkind, -⟩ := hv.one_inv
    exact .star (hkind.trans ht)
  | expr he ha =>
    obtain ⟨w', a', rfl, hw, haa⟩ := hv.append_inv
    refine .expr (he.respelled hprev hw) ?_
    cases ha with
    | absent =>
      obtain rfl := haa.nil_inv
      exact .absent
    | present has hname =>
      obtain ⟨as', u', rfl, has', -, hu⟩ := haa.cons_inv
      obtain ⟨name', rfl, hkind, htext⟩ := hu.one_inv
      rw [← name_of_respelled (by rw [has]; decide) hname htext]
      exact .present (has'.trans has) (hkind.trans hname)

theorem GuardOf.respelled {guard : Bool} (h : GuardOf w guard) (hw : Respelled .KwTable w w') :
    GuardOf w' guard ∧ Respelled.last_kind .KwTable w ≠ .Identifier := by
  cases h with
  | absent =>
    obtain rfl := hw.nil_inv
    exact ⟨.absent, by decide⟩
  | present hkinds =>
    refine ⟨.present (hw.kinds.trans hkinds), ?_⟩
    obtain ⟨t1, u1, rfl, -, hu1⟩ := List.map_eq_cons_iff.mp hkinds
    obtain ⟨t2, u2, rfl, -, hu2⟩ := List.map_eq_cons_iff.mp hu1
    obtain ⟨t3, u3, rfl, h3, hu3⟩ := List.map_eq_cons_iff.mp hu2
    obtain rfl := List.map_eq_nil_iff.mp hu3
    show t3.kind ≠ .Identifier
    rw [h3]
    decide

theorem CreateOf.respelled {stmt : CreateTableStmt} (h : CreateOf parser_rules w stmt)
    (hw : Respelled prev w w') (hs : Spelled w') :
    ∃ stmt', CreateOf parser_rules w' stmt' ∧ SameStmt (.create_table stmt) (.create_table stmt') := by
  cases h with
  | mk hcreate htable hguard hname hlp hcolumns hrp =>
    obtain ⟨create', v1, rfl, hcreate', -, hv1⟩ := hw.cons_inv
    obtain ⟨table', v2, rfl, htable', -, hv2⟩ := hv1.cons_inv
    rw [htable] at hv2
    obtain ⟨guard', v3, rfl, hg, hv3⟩ := hv2.append_inv
    obtain ⟨hguard', hprev⟩ := hguard.respelled hg
    obtain ⟨name', v4, rfl, hname', htext, hv4⟩ := hv3.cons_inv
    obtain ⟨lp', v5, rfl, hlp', -, hv5⟩ := hv4.cons_inv
    obtain ⟨inside', v6, rfl, hinside, hv6⟩ := hv5.append_inv
    obtain ⟨rp', rfl, hrp', -⟩ := hv6.one_inv
    obtain ⟨columns', hcolumns', hall⟩ := hcolumns.respelled ColumnOf.respelled
      (by rw [hlp]; decide) hinside hs.tail.tail.right.tail.tail.left
    have hcreateOf := CreateOf.mk (hcreate'.trans hcreate) (htable'.trans htable) hguard'
      (hname'.trans hname) (hlp'.trans hlp) hcolumns' (hrp'.trans hrp)
    rw [name_of_respelled hprev hname htext] at hcreateOf
    exact ⟨_, hcreateOf, .create_table hall⟩

theorem TargetsOf.respelled {names : List Bytes} (h : TargetsOf parser_rules w names)
    (hw : Respelled prev w w') (hs : Spelled w') : TargetsOf parser_rules w' names := by
  cases h with
  | absent =>
    obtain rfl := hw.nil_inv
    exact .absent
  | present hlp hnames hrp =>
    obtain ⟨lp', v1, rfl, hlp', -, hv1⟩ := hw.cons_inv
    obtain ⟨inside', v2, rfl, hinside, hv2⟩ := hv1.append_inv
    obtain ⟨rp', rfl, hrp', -⟩ := hv2.one_inv
    exact .present (hlp'.trans hlp)
      (hnames.respelled_eq NameOf.respelled (by rw [hlp]; decide) hinside hs.tail.left)
      (hrp'.trans hrp)

theorem InsertOf.respelled {stmt : InsertStmt} (h : InsertOf parser_rules w stmt)
    (hw : Respelled prev w w') (hs : Spelled w') : InsertOf parser_rules w' stmt := by
  cases h with
  | mk hinsert hinto hname htargets hvalues hrows =>
    obtain ⟨insert', v1, rfl, hinsert', -, hv1⟩ := hw.cons_inv
    obtain ⟨into', v2, rfl, hinto', -, hv2⟩ := hv1.cons_inv
    obtain ⟨name', v3, rfl, hname', htext, hv3⟩ := hv2.cons_inv
    obtain ⟨targets', v4, rfl, htargets', hv4⟩ := hv3.append_inv
    obtain ⟨values', rows', rfl, hvalues', -, hrows'⟩ := hv4.cons_inv
    have hrest := hs.tail.tail.tail
    rw [← name_of_respelled (by rw [hinto]; decide) hname htext]
    exact .mk (hinsert'.trans hinsert) (hinto'.trans hinto) (hname'.trans hname)
      (htargets.respelled htargets' hrest.left) (hvalues'.trans hvalues)
      (hrows.respelled_eq RowOf.respelled (by rw [hvalues]; decide) hrows' hrest.right.tail)

theorem WhereOf.respelled {where_ : Option Expr} (h : WhereOf parser_rules w where_)
    (hw : Respelled prev w w') : WhereOf parser_rules w' where_ := by
  cases h with
  | absent =>
    obtain rfl := hw.nil_inv
    exact .absent
  | present hkw he =>
    obtain ⟨kw', v1, rfl, hkw', -, hv1⟩ := hw.cons_inv
    exact .present (hkw'.trans hkw) (he.respelled (by rw [hkw]; decide) hv1)

theorem SelectOf.respelled {stmt : SelectStmt} (h : SelectOf parser_rules w stmt)
    (hw : Respelled prev w w') (hs : Spelled w') : SelectOf parser_rules w' stmt := by
  cases h with
  | mk hselect hitems hkw hname hwhere =>
    obtain ⟨select', v1, rfl, hselect', -, hv1⟩ := hw.cons_inv
    obtain ⟨items', v2, rfl, hitems', hv2⟩ := hv1.append_inv
    obtain ⟨kw', v3, rfl, hkw', -, hv3⟩ := hv2.cons_inv
    obtain ⟨name', where', rfl, hname', htext, hwhere'⟩ := hv3.cons_inv
    rw [← name_of_respelled (by rw [hkw]; decide) hname htext]
    exact .mk (hselect'.trans hselect)
      (hitems.respelled_eq ItemOf.respelled (by rw [hselect]; decide) hitems' hs.tail.left)
      (hkw'.trans hkw) (hname'.trans hname) (hwhere.respelled hwhere')

theorem StmtOf.respelled {s : Stmt} (h : StmtOf parser_rules w s) (hw : Respelled prev w w')
    (hs : Spelled w') : ∃ s', StmtOf parser_rules w' s' ∧ SameStmt s s' := by
  cases h with
  | create_table h =>
    obtain ⟨stmt', hstmt', hsame⟩ := h.respelled hw hs
    exact ⟨_, .create_table hstmt', hsame⟩
  | insert h => exact ⟨_, .insert (h.respelled hw hs), .refl⟩
  | select h => exact ⟨_, .select (h.respelled hw hs), .refl⟩

theorem SemicolonOf.respelled (h : SemicolonOf w) (hw : Respelled prev w w') : SemicolonOf w' := by
  cases h with
  | absent =>
    obtain rfl := hw.nil_inv
    exact .absent
  | present ht =>
    obtain ⟨t', rfl, ht', -⟩ := hw.one_inv
    exact .present (ht'.trans ht)

/-- The statements in another case. -/
theorem ProgramOf.respelled {stmts : List Stmt} (h : ProgramOf parser_rules w stmts)
    (hw : Respelled prev w w') (hs : Spelled w') :
    ∃ stmts', ProgramOf parser_rules w' stmts' ∧ List.Forall₂ SameStmt stmts stmts' := by
  induction h generalizing prev w' with
  | done hlead => exact ⟨[], .done (hlead.respelled hw), .nil⟩
  | stmt hlead hstmt htrail hno _ ih =>
    obtain ⟨lead', v1, rfl, hlead', hv1⟩ := hw.append_inv
    obtain ⟨u', v2, rfl, hu', hv2⟩ := hv1.append_inv
    obtain ⟨trail', rest', rfl, htrail', hrest'⟩ := hv2.append_inv
    obtain ⟨s', hs', hsame⟩ := hstmt.respelled hu' hs.right.left
    obtain ⟨stmts', hstmts', hall⟩ := ih hrest' hs.right.right.right
    refine ⟨s' :: stmts', .stmt (hlead.respelled hlead') hs' (htrail.respelled htrail') ?_ hstmts',
      .cons hsame hall⟩
    intro hempty t ht
    subst hempty
    obtain rfl := htrail'.symm.nil_inv
    obtain ⟨us, rfl⟩ : ∃ us, rest' = t :: us := by
      cases rest' with
      | nil => cases ht
      | cons x us =>
        cases ht
        exact ⟨us, rfl⟩
    obtain ⟨t0, us0, rfl, hkind, -⟩ := hrest'.symm.cons_inv
    rw [← hkind]
    exact hno rfl t0 rfl

/-! ### What is parsed is spelled -/

variable {rules : Rules}

theorem spelled_cons {t : Token} {v : List Token} (ht : t.kind ≠ .Identifier) (hv : Spelled v) :
    Spelled (t :: v) := spelled_append_cons (u := []) ht trivial hv

theorem spelled_append_of_head {u v : List Token} (hu : Spelled u) (hv : Spelled v)
    (hhead : ∀ t ∈ v.head?, t.kind ≠ .Identifier) : Spelled (u ++ v) := by
  cases v with
  | nil => rwa [List.append_nil]
  | cons t v => exact spelled_append_cons (hhead t rfl) hu hv.tail

theorem Derives.spelled {n : Nonterminal} {e : Expr} (h : Derives rules n w e) : Spelled w := by
  induction h with
  | operand _ _ ih => exact ih
  | joined j _ hkind _ ih1 ih2 =>
    refine spelled_append_cons ?_ ih1 ih2
    rw [hkind]
    cases j <;> decide
  | alone _ ih => exact ih
  | compared _ hop _ ih1 ih2 =>
    refine spelled_append_cons (fun hname => ?_) ih1 ih2
    rw [hname] at hop
    cases hop
  | literal _ => trivial
  | column _ => trivial
  | parens hlp _ hrp ih =>
    exact spelled_cons (by rw [hlp]; decide) (spelled_append_cons (by rw [hrp]; decide) ih trivial)

section

variable {α : Type} {element : List Token → α → Prop} {xs : List α}

theorem Separated.spelled (helement : ∀ {v x}, element v x → Spelled v)
    (h : Separated element w xs) : Spelled w := by
  induction h with
  | one hx => exact helement hx
  | more hx hc _ ih => exact spelled_append_cons (by rw [hc]; decide) (helement hx) ih

theorem Listed.spelled {loose : Bool} (helement : ∀ {v x}, element v x → Spelled v)
    (h : Listed element loose w xs) : Spelled w := by
  cases h with
  | separated hsep => exact hsep.spelled helement
  | empty _ => trivial
  | trailing _ hsep hc =>
    exact spelled_append_cons (by rw [hc]; decide) (hsep.spelled helement) trivial

/-- A list in parentheses. -/
theorem Listed.spelled_closed {loose : Bool} {lp rp : Token}
    (helement : ∀ {v x}, element v x → Spelled v) (h : Listed element loose w xs)
    (hlp : lp.kind = .LParen) (hrp : rp.kind = .RParen) : Spelled (lp :: (w ++ [rp])) :=
  spelled_cons (by rw [hlp]; decide)
    (spelled_append_cons (by rw [hrp]; decide) (h.spelled helement) trivial)

end

/-- Tokens of which none is a name can be added. -/
theorem spelled_append_of_forall {u v : List Token} (hu : Spelled u)
    (hv : ∀ t ∈ v, t.kind ≠ .Identifier) : Spelled (u ++ v) := by
  induction v generalizing u with
  | nil => rwa [List.append_nil]
  | cons t v ih =>
    obtain ⟨ht, hrest⟩ := List.forall_mem_cons.mp hv
    rw [← List.singleton_append, ← List.append_assoc]
    exact ih (spelled_append_cons ht hu trivial) hrest

theorem ConstraintsOf.no_name {cs : List Constraint} (h : ConstraintsOf w cs) :
    ∀ t ∈ w, t.kind ≠ .Identifier := by
  induction h with
  | nil => exact fun _ ht => nomatch ht
  | @cons u ws c cs hkinds _ ih =>
    intro t ht
    rcases List.mem_append.mp ht with ht | ht
    · have hmem : t.kind ∈ c.kinds := hkinds ▸ List.mem_map_of_mem ht
      intro hname
      rw [hname] at hmem
      cases c <;> exact absurd hmem (by decide)
    · exact ih t ht

theorem ColumnOf.spelled {d : ColumnDef} (h : ColumnOf w d) : Spelled w := by
  cases h with
  | mk hname htype hconstraints =>
    rw [← List.cons_append]
    refine spelled_append_of_forall ?_ hconstraints.no_name
    cases htype with
    | plain _ => trivial
    | double_precision _ hd _ hp => exact ⟨fun _ _ _ => ⟨hd, hp⟩, trivial⟩
    | param _ hlp hn hrp =>
      rename_i t lp n rp value _ _
      exact spelled_append_cons (u := [_, t]) (by rw [hlp]; decide) trivial trivial

theorem RowOf.spelled {exprs : List Expr} (h : RowOf rules w exprs) : Spelled w := by
  cases h with
  | mk hlp hexprs hrp => exact hexprs.spelled_closed Derives.spelled hlp hrp

theorem ItemOf.spelled {item : SelectItem} (h : ItemOf rules w item) : Spelled w := by
  cases h with
  | star _ => trivial
  | expr he ha =>
    cases ha with
    | absent =>
      rw [List.append_nil]
      exact he.spelled
    | present has _ => exact spelled_append_cons (by rw [has]; decide) he.spelled trivial

theorem CreateOf.spelled {stmt : CreateTableStmt} (h : CreateOf rules w stmt) : Spelled w := by
  cases h with
  | @mk create table name lp rp guard_tokens inside _ _ hcreate htable hguard hname hlp hcolumns hrp =>
    refine spelled_cons (by rw [hcreate]; decide) (spelled_cons (by rw [htable]; decide) ?_)
    have hinside : Spelled ([name] ++ lp :: (inside ++ [rp])) :=
      spelled_append_of_head trivial (hcolumns.spelled_closed ColumnOf.spelled hlp hrp) (by simp [hlp])
    cases hguard with
    | absent => exact hinside
    | present hkinds =>
      obtain ⟨t1, u1, rfl, h1, hu1⟩ := List.map_eq_cons_iff.mp hkinds
      obtain ⟨t2, u2, rfl, h2, hu2⟩ := List.map_eq_cons_iff.mp hu1
      obtain ⟨t3, u3, rfl, h3, hu3⟩ := List.map_eq_cons_iff.mp hu2
      obtain rfl := List.map_eq_nil_iff.mp hu3
      exact spelled_cons (by rw [h1]; decide) (spelled_cons (by rw [h2]; decide)
        (spelled_cons (by rw [h3]; decide) hinside))

theorem InsertOf.spelled {stmt : InsertStmt} (h : InsertOf rules w stmt) : Spelled w := by
  cases h with
  | @mk insert into name values targets _ _ _ hinsert hinto _ htargets hvalues hrows =>
    refine spelled_cons (by rw [hinsert]; decide) (spelled_cons (by rw [hinto]; decide) ?_)
    have hnames : Spelled ([name] ++ targets) := by
      cases htargets with
      | absent => trivial
      | present hlp hnames hrp =>
        refine spelled_append_of_head trivial (hnames.spelled_closed ?_ hlp hrp) (by simp [hlp])
        intro v x hx
        cases hx
        trivial
    exact spelled_append_cons (u := [name] ++ targets) (by rw [hvalues]; decide) hnames
      (hrows.spelled RowOf.spelled)

theorem SelectOf.spelled {stmt : SelectStmt} (h : SelectOf rules w stmt) : Spelled w := by
  cases h with
  | @mk select kw name _ _ _ _ hselect hitems hkw _ hwhere =>
    refine spelled_cons (by rw [hselect]; decide) ?_
    refine spelled_append_cons (by rw [hkw]; decide) (hitems.spelled ItemOf.spelled) ?_
    cases hwhere with
    | absent => trivial
    | present hwhere he =>
      exact spelled_append_cons (u := [name]) (by rw [hwhere]; decide) trivial he.spelled

theorem StmtOf.spelled {s : Stmt} (h : StmtOf rules w s) : Spelled w := by
  cases h with
  | create_table h => exact h.spelled
  | insert h => exact h.spelled
  | select h => exact h.spelled

/-- A statement does not start with a name, and a semicolon is none. -/
theorem ProgramOf.head_ne {stmts : List Stmt} (h : ProgramOf rules w stmts) :
    ∀ t ∈ w.head?, t.kind ≠ .Identifier := by
  intro t ht hname
  cases h with
  | done hlead =>
    cases hlead with
    | absent => cases ht
    | present hsemi =>
      cases ht
      rw [hname] at hsemi
      cases hsemi
  | stmt hlead hs _ _ _ =>
    cases hlead with
    | absent =>
      obtain ⟨first, v, rfl, hfirst⟩ := hs.starts
      cases ht
      rw [hname] at hfirst
      exact absurd hfirst (by decide)
    | present hsemi =>
      cases ht
      rw [hname] at hsemi
      cases hsemi

theorem SemicolonOf.spelled_append {v : List Token} (h : SemicolonOf w) (hv : Spelled v) :
    Spelled (w ++ v) := by
  cases h with
  | absent => exact hv
  | present hsemi => exact spelled_cons (by rw [hsemi]; decide) hv

theorem ProgramOf.spelled {stmts : List Stmt} (h : ProgramOf rules w stmts) : Spelled w := by
  induction h with
  | done hlead =>
    have hnil := hlead.spelled_append (v := []) trivial
    rwa [List.append_nil] at hnil
  | stmt hlead hs htrail _ hrest ih =>
    refine hlead.spelled_append (spelled_append_of_head hs.spelled (htrail.spelled_append ih) ?_)
    intro t ht
    cases htrail with
    | absent => exact hrest.head_ne t ht
    | present hsemi =>
      cases ht
      rw [hsemi]
      decide

end Grammar

/-! ## The same types -/

open Call

/-- What follows with a pure function gives the same where the call does. -/
theorem fst_run_bind_pure {σ α β : Type} {x y : Call Error σ α} {s : σ} (f : α → β)
    (h : (x.run s).1 = (y.run s).1) :
    ((x >>= fun a => pure (f a)).run s).1 = ((y >>= fun a => pure (f a)).run s).1 := by
  rw [run_bind, run_bind]
  rcases hx : x.run s with ⟨e | a, s1⟩ <;> rcases hy : y.run s with ⟨e' | a', s2⟩ <;>
    rw [hx, hy] at h <;> cases h <;> rfl

theorem Binder.bind_column_defs_same (table_name : Bytes) {columns columns' : List ColumnDef}
    (h : List.Forall₂ SameColumn columns columns') (seen : List Bytes) (b : Binder) :
    ((bind_column_defs table_name seen columns).run b).1 =
      ((bind_column_defs table_name seen columns').run b).1 := by
  induction h generalizing seen b with
  | nil => rfl
  | @cons d d' rest rest' hd _ ih =>
    change (Call.run (@ite _ _ _ _ _) b).1 = (Call.run (@ite _ _ _ _ _) b).1
    rw [hd.name, hd.type, hd.param, hd.not_null, hd.primary_key, hd.unique_constraint]
    split
    · rfl
    · rw [run_bind_ok _ (run_attempt _ b), run_bind_ok _ (run_attempt _ b)]
      rcases ((on_catalog (Catalog.get_type (canonical_type_name d.type))).run b).1 with e | type
      · rfl
      · exact fst_run_bind_pure _ (ih _ _)

/-- The binder makes the same of both statements, from whatever state. -/
def BoundAlike (s s' : Stmt) : Prop :=
  ∀ (types : TypeRegistry) (b : Binder),
    ((Binder.bind types s).run b).1 = ((Binder.bind types s').run b).1

theorem SameStmt.bound {s s' : Stmt} (h : SameStmt s s') : BoundAlike s s' := by
  intro types b
  cases h with
  | refl => rfl
  | create_table hcolumns =>
    exact fst_run_bind_pure _ (fst_run_bind_pure _ (Binder.bind_column_defs_same _ hcolumns _ _))

theorem BoundAlike.symm {s s' : Stmt} (h : BoundAlike s s') : BoundAlike s' s :=
  fun types b => (h types b).symm

/-! ## Texts in another case -/

/-- Whichever of the texts parses, the other one does, and the binder makes the
same of the statements. -/
def Agree (src src' : Bytes) : Prop :=
  (∀ stmts, (Parser.parse.run (Parser.start src)).1 = .ok stmts →
    ∃ stmts', (Parser.parse.run (Parser.start src')).1 = .ok stmts' ∧
      List.Forall₂ BoundAlike stmts stmts') ∧
  ∀ stmts', (Parser.parse.run (Parser.start src')).1 = .ok stmts' →
    ∃ stmts, (Parser.parse.run (Parser.start src)).1 = .ok stmts ∧
      List.Forall₂ BoundAlike stmts stmts'

theorem parse_respelled {src src' : Bytes} {stmts : List Stmt}
    (h : Respelled .Eof (tokens src) (tokens src'))
    (hparse : (Parser.parse.run (Parser.start src)).1 = .ok stmts) :
    (∃ stmts', (Parser.parse.run (Parser.start src')).1 = .ok stmts' ∧
      List.Forall₂ BoundAlike stmts stmts') ↔ Spelled (tokens src') := by
  constructor
  · rintro ⟨stmts', hparse', -⟩
    exact (Parser.parse_iff.mp hparse').spelled
  · intro hs
    obtain ⟨stmts', hstmts', hall⟩ := (Parser.parse_iff.mp hparse).respelled h hs
    exact ⟨stmts', Parser.parse_iff.mpr hstmts', hall.imp fun _ _ h => h.bound⟩

/-- Texts that differ in the case of keywords and of names of types agree exactly
when the other one of a text that parses has the two words of DOUBLE PRECISION in
one case each. -/
theorem letter_case_is_free_iff {src src' : Bytes} (h : Recased .Eof src src') :
    Agree src src' ↔
      ((∃ stmts, (Parser.parse.run (Parser.start src)).1 = .ok stmts) → Spelled (tokens src')) ∧
      ((∃ stmts', (Parser.parse.run (Parser.start src')).1 = .ok stmts') → Spelled (tokens src)) := by
  have hspelled := h.tokens
  refine and_congr ?_ ?_
  · rw [forall_exists_index]
    exact forall_congr' fun stmts => forall_congr' fun hparse => parse_respelled hspelled hparse
  · rw [forall_exists_index]
    refine forall_congr' fun stmts => forall_congr' fun hparse => ?_
    rw [← parse_respelled hspelled.symm hparse]
    have hflip : ∀ {xs ys : List Stmt}, List.Forall₂ BoundAlike xs ys → List.Forall₂ BoundAlike ys xs :=
      fun hxs => List.Forall₂.flip (hxs.imp fun _ _ hxy => hxy.symm)
    exact exists_congr fun stmts' => and_congr_right fun _ => ⟨hflip, hflip⟩

/-! ### A column in two cases -/

/-- A word after blanks, with one of its letters at hand. -/
theorem recased_word {prev : TokenKind} {rest rest' : Bytes} (gap : Bytes) (c : UInt8)
    (cs text' : Bytes)
    (hgap : gap.all is_blank = true) (hc : is_ident_start c = true)
    (hcs : cs.all is_ident_char = true) (hnext : rest.head?.any is_ident_char = false)
    (htext : text' = c :: cs ∨
      (Free prev (match_keyword (((c :: cs).take max_kw_len).map to_lower)) ∧
        SameLetters (c :: cs) text'))
    (hrest : Recased (match_keyword (((c :: cs).take max_kw_len).map to_lower)) rest rest') :
    Recased prev (gap ++ (c :: cs ++ rest)) (gap ++ (text' ++ rest')) := by
  have hnext' : ∀ b ∈ rest.head?, is_ident_char b = false := by
    intro b hb
    rwa [Option.mem_def.mp hb] at hnext
  exact .token (skipped_blanks _ (List.all_eq_true.mp hgap))
    (.word hc (List.all_eq_true.mp hcs) hnext') htext hrest

theorem recased_mark {prev kind : TokenKind} {rest rest' : Bytes} (c : UInt8)
    (hsingle : single c = some kind) (hpair : ∀ d ∈ rest.head?, pair c d = none)
    (hrest : Recased kind rest rest') : Recased prev (c :: rest) (c :: rest') :=
  .token (Skipped.nil : Skipped true [] _) (.mark hsingle hpair) (Or.inl rfl) hrest

/-- A table with one column, with keywords in two cases. -/
theorem recased_table {rest rest' : Bytes} (hnext : rest.head?.any is_ident_char = false)
    (h : Recased .Identifier rest rest') :
    Recased .Eof (str "CREATE TABLE t(a" ++ rest) (str "create table t(a" ++ rest') := by
  have hname : Recased .LParen (str "a" ++ rest) (str "a" ++ rest') :=
    recased_word [] (chr 'a') [] (str "a") (by decide) (by decide) (by decide) hnext (Or.inl rfl) h
  have hopen : Recased .Identifier (str "(a" ++ rest) (str "(a" ++ rest') :=
    recased_mark (chr '(') rfl (fun d hd => by cases hd; decide) hname
  have htable : Recased .KwTable (str " t(a" ++ rest) (str " t(a" ++ rest') :=
    recased_word (str " ") (chr 't') [] (str "t") (by decide) (by decide) (by decide) rfl (Or.inl rfl)
      hopen
  have hcreate : Recased .KwCreate (str " TABLE t(a" ++ rest) (str " table t(a" ++ rest') :=
    recased_word (str " ") (chr 'T') (str "ABLE") (str "table") (by decide) (by decide) (by decide)
      rfl (Or.inr ⟨Or.inl (by decide), rfl⟩) htable
  exact recased_word [] (chr 'C') (str "REATE") (str "create") (by decide) (by decide) (by decide)
    rfl (Or.inr ⟨Or.inl (by decide), rfl⟩) hcreate

theorem recased_end (prev : TokenKind) : Recased prev (str ")") (str ")") :=
  recased_mark (chr ')') rfl (fun _ hd => nomatch hd) (.done .nil)

/-- A type in two cases. -/
theorem int_columns_agree :
    Agree (str "CREATE TABLE t(a INT)") (str "create table t(a int)") := by
  have htype : Recased .Identifier (str " INT)") (str " int)") :=
    recased_word (str " ") (chr 'I') (str "NT") (str "int") (by decide) (by decide) (by decide)
      (by decide) (Or.inr ⟨Or.inr ⟨rfl, by decide⟩, rfl⟩) (recased_end _)
  refine (letter_case_is_free_iff (recased_table (by decide) htype)).mpr ⟨fun _ => ?_, fun _ => ?_⟩ <;>
    decide +kernel

/-- The two words of DOUBLE PRECISION with capitals, and in capitals. -/
theorem double_precision_in_two_cases :
    Recased .Eof (str "CREATE TABLE t(a DOUBLE PRECISION)") (str "create table t(a Double Precision)") ∧
      (Parser.parse.run (Parser.start (str "CREATE TABLE t(a DOUBLE PRECISION)"))).1 =
        .ok [.create_table ⟨str "t", [⟨str "a", ⟨str "double precision", none⟩, false, false, false⟩],
          false⟩] ∧
      (Parser.parse.run (Parser.start (str "create table t(a Double Precision)"))).1 =
        .error .ParseError := by
  refine ⟨?_, by decide +kernel, by decide +kernel⟩
  have hsecond : Recased .Identifier (str " PRECISION)") (str " Precision)") :=
    recased_word (str " ") (chr 'P') (str "RECISION") (str "Precision") (by decide) (by decide)
      (by decide) (by decide) (Or.inr ⟨Or.inr ⟨rfl, by decide⟩, rfl⟩) (recased_end _)
  have hfirst : Recased .Identifier (str " DOUBLE PRECISION)") (str " Double Precision)") :=
    recased_word (str " ") (chr 'D') (str "OUBLE") (str "Double") (by decide) (by decide)
      (by decide) (by decide) (Or.inr ⟨Or.inr ⟨rfl, by decide⟩, rfl⟩) hsecond
  exact recased_table (by decide) hfirst

end edb
