import Mathlib.Data.List.Basic
import Refactor.Pattern.MethodPattern
import Refactor.Proofs.Pattern.Glob

/-!
# What the text of a pattern spells

`Spelled pattern text` reads a pattern off its own text, character by character. Type patterns match the
erased names that their body spells, with wildcards (by the tokens) and without them (by comparison)
alike (`TypePattern.matchesName_iff`); name patterns match the names that they spell, and a star alone
matches every name (`NamePattern.matchesName_iff`).
-/

namespace Refactor

theorem bind_eq_ok {ε α β : Type} {x : Except ε α} {f : α → Except ε β} {b : β} :
    x >>= f = .ok b ↔ ∃ a, x = .ok a ∧ f a = .ok b := by
  constructor
  · intro h
    cases x with
    | error e => cases h
    | ok a => exact ⟨a, rfl, h⟩
  · rintro ⟨a, rfl, h⟩
    exact h

theorem ite_error_eq_ok {ε α : Type} {c : Prop} [Decidable c] {e : ε} {x : Except ε α} {a : α} :
    (if c then .error e else x) = .ok a ↔ ¬ c ∧ x = .ok a := by
  by_cases hc : c <;> simp [hc]

theorem mapError_eq_ok {ε ε' α : Type} {x : Except ε α} {f : ε → ε'} {a : α} :
    x.mapError f = .ok a ↔ x = .ok a := by
  cases x <;> simp [Except.mapError]

/-- The text is what the pattern spells. Two dots stand for a dot and any number of segments, each with a
dot after it; a star stands for any run of name characters, and all else for itself. -/
def Spelled : List Char → List Char → Prop
  | [], cs => cs = []
  | '.' :: '.' :: ps, cs => ∃ segs rest, cs = '.' :: (Token.dotted segs ++ rest) ∧
      (∀ s ∈ segs, Token.IsSegment s) ∧ Spelled ps rest
  | '*' :: ps, cs => ∃ name rest, cs = name ++ rest ∧ (∀ c ∈ name, Token.isNameChar c = true) ∧
      Spelled ps rest
  | p :: ps, cs => ∃ rest, cs = p :: rest ∧ Spelled ps rest

theorem spelled_char {c : Char} {ps cs : List Char} (hdots : ∀ qs, c = '.' → ps = '.' :: qs → False)
    (hstar : c = '*' → False) : Spelled (c :: ps) cs ↔ ∃ rest, cs = c :: rest ∧ Spelled ps rest := by
  rw [Spelled]
  · exact hdots
  · exact hstar

/-! ### Type patterns -/

namespace TypePattern

/-- The tokens of a body spell what the body spells. -/
theorem tokenize_spells {body : List Char} {ts : List Token} (h : tokenize body = .ok ts) :
    ∀ cs, Token.Spells ts cs ↔ Spelled body cs := by
  fun_induction tokenize body generalizing ts with
  | case1 =>
    cases h
    exact fun cs => Iff.rfl
  | case2 body ih =>
    obtain ⟨ts, hts, h⟩ := bind_eq_ok.1 h
    cases h
    intro cs
    simp only [Token.Spells, Spelled, ih hts]
    constructor
    · rintro ⟨-, rfl, segs, rest, rfl, hsegs, h⟩
      exact ⟨segs, rest, rfl, hsegs, h⟩
    · rintro ⟨segs, rest, rfl, hsegs, h⟩
      exact ⟨_, rfl, segs, rest, rfl, hsegs, h⟩
  | case3 body ih =>
    obtain ⟨ts, hts, h⟩ := bind_eq_ok.1 h
    cases h
    intro cs
    simp only [Token.Spells, Spelled, ih hts]
  | case4 c body hdots hstar _ ih =>
    obtain ⟨ts, hts, h⟩ := bind_eq_ok.1 h
    cases h
    intro cs
    simp only [Token.Spells, spelled_char hdots hstar, ih hts]
  | case5 => cases h

/-- A body without wildcards spells itself and nothing else. -/
theorem spelled_of_tame {body : List Char} {ts : List Token} (h : tokenize body = .ok ts)
    (htame : ts.any (·.isWild) = false) : ∀ cs, Spelled body cs ↔ cs = body := by
  fun_induction tokenize body generalizing ts with
  | case1 => exact fun cs => Iff.rfl
  | case2 body ih =>
    obtain ⟨ts, hts, h⟩ := bind_eq_ok.1 h
    cases h
    simp [Token.isWild] at htame
  | case3 body ih =>
    obtain ⟨ts, hts, h⟩ := bind_eq_ok.1 h
    cases h
    simp [Token.isWild] at htame
  | case4 c body hdots hstar _ ih =>
    obtain ⟨ts, hts, h⟩ := bind_eq_ok.1 h
    cases h
    rw [List.any_cons, Bool.or_eq_false_iff] at htame
    intro cs
    simp [spelled_char hdots hstar, ih hts htame.2]
  | case5 => cases h

theorem splitPlus_append (cs : List Char) :
    (splitPlus cs).1 ++ (if (splitPlus cs).2 then ['+'] else []) = cs := by
  unfold splitPlus
  by_cases hlast : cs.getLast? = some '+'
  · rw [if_pos hlast]
    exact List.dropLast_append_getLast? _ hlast
  · rw [if_neg hlast]
    simp

/-- What the text of a pattern says of a type: its erased name is spelled by the pattern without the plus
at its end. -/
def Denotes (pattern : List Char) (name : String) : Prop :=
  Spelled (splitPlus pattern).1 (eraseChars name.toList)

/-- **The texts that compile**, and what to. -/
theorem compileTrimmed_eq_ok_iff {text : List Char} {p : TypePattern} : compileTrimmed text = .ok p ↔
    text ≠ [] ∧ (splitPlus text).1 ≠ [] ∧
      ¬ (['.', '.'].isPrefixOf (splitPlus text).1 = true ∨ (splitPlus text).1.getLast? = some '.') ∧
      hasThreeDots (splitPlus text).1 = false ∧ ∃ tokens, tokenize (splitPlus text).1 = .ok tokens ∧
        p = ⟨String.ofList text, (splitPlus text).1, tokens, (splitPlus text).2⟩ := by
  constructor
  · intro h
    simp only [compileTrimmed, throw, throwThe, MonadExceptOf.throw] at h
    obtain ⟨htext, h⟩ := ite_error_eq_ok.1 h
    obtain ⟨hbody, h⟩ := ite_error_eq_ok.1 h
    obtain ⟨hdots, h⟩ := ite_error_eq_ok.1 h
    obtain ⟨hthree, h⟩ := ite_error_eq_ok.1 h
    obtain ⟨tokens, htokens, h⟩ := bind_eq_ok.1 h
    exact ⟨htext, hbody, hdots, by simpa using hthree, tokens, htokens, (Except.ok.inj h).symm⟩
  · rintro ⟨htext, hbody, hdots, hthree, tokens, htokens, rfl⟩
    simp only [compileTrimmed, if_neg htext, if_neg hbody, if_neg hdots, hthree]
    exact bind_eq_ok.2 ⟨tokens, htokens, rfl⟩

theorem compileTrimmed_eq_ok {text : List Char} {p : TypePattern} (h : compileTrimmed text = .ok p) :
    p.body = (splitPlus text).1 ∧ p.subtypes = (splitPlus text).2 ∧ tokenize p.body = .ok p.tokens := by
  obtain ⟨-, -, -, -, tokens, htokens, rfl⟩ := compileTrimmed_eq_ok_iff.1 h
  exact ⟨rfl, rfl, htokens⟩

/-- **A type pattern matches what it spells**, whether by tokens or by comparison. -/
theorem matchesName_iff {text : List Char} {p : TypePattern} (h : compileTrimmed text = .ok p)
    (name : String) : p.matchesName name = true ↔ Denotes text name := by
  obtain ⟨hbody, -, htokens⟩ := compileTrimmed_eq_ok h
  unfold matchesName Denotes
  rw [← hbody]
  dsimp only
  by_cases hwild : p.hasWildcard = true
  · rw [if_pos hwild, Token.matchesAll_iff, tokenize_spells htokens]
  · have htame : p.tokens.any (·.isWild) = false := by simpa [hasWildcard] using hwild
    rw [if_neg hwild, spelled_of_tame htokens htame, decide_eq_true_iff, eq_comm]

end TypePattern

/-! ### Names of methods -/

namespace NamePattern

/-- A pattern without stars and dots spells itself and nothing else. -/
theorem spelled_iff_eq {pattern : List Char} (hstar : '*' ∉ pattern) (hdot : '.' ∉ pattern)
    (cs : List Char) : Spelled pattern cs ↔ cs = pattern := by
  induction pattern generalizing cs with
  | nil => rfl
  | cons c ps ih =>
    rw [List.mem_cons, not_or] at hstar hdot
    rw [spelled_char (fun _ hc _ => hdot.1 hc.symm) (fun hc => hstar.1 hc.symm)]
    simp [ih hstar.2 hdot.2]

/-- The tokens of a name without dots spell what the name spells. -/
theorem tokens_spell {pattern : List Char} (hdot : '.' ∉ pattern) (cs : List Char) :
    Token.Spells (pattern.map fun c => if c = '*' then .run else .char c) cs ↔ Spelled pattern cs := by
  induction pattern generalizing cs with
  | nil => rfl
  | cons c ps ih =>
    rw [List.mem_cons, not_or] at hdot
    rw [List.map_cons]
    by_cases hstar : c = '*'
    · subst hstar
      rw [if_pos rfl]
      simp only [Token.Spells, Spelled, ih hdot.2]
    · rw [if_neg hstar, spelled_char (fun _ hc _ => hdot.1 hc.symm) hstar]
      simp only [Token.Spells, ih hdot.2]

theorem not_isAllowed_dot : isAllowed '.' = false := by decide +kernel

/-- **A name pattern matches what it spells**, and a star alone matches all names. -/
theorem matchesName_iff {pattern : List Char} {p : NamePattern} (h : compile pattern = .ok p)
    (name : String) : p.matchesName name = true ↔ pattern = ['*'] ∨ Spelled pattern name.toList := by
  unfold compile at h
  by_cases hany : pattern = ['*']
  · rw [if_pos hany] at h
    cases h
    simp [matchesName, hany]
  rw [if_neg hany] at h
  by_cases hconstructor : pattern = constructorName
  · -- The name of constructors is the one that may have other characters.
    rw [if_pos hconstructor] at h
    cases h
    rw [spelled_iff_eq (by rw [hconstructor]; decide) (by rw [hconstructor]; decide)]
    simp [matchesName, hany, eq_comm]
  rw [if_neg hconstructor] at h
  cases hallowed : pattern.find? (!isAllowed ·) with
  | some c =>
    rw [hallowed] at h
    cases h
  | none =>
    rw [hallowed] at h
    have hdot : '.' ∉ pattern := by
      intro hmem
      have := List.find?_eq_none.1 hallowed '.' hmem
      simp [not_isAllowed_dot] at this
    dsimp only at h
    by_cases hstar : '*' ∈ pattern
    · rw [if_pos hstar] at h
      cases h
      simp [matchesName, hany, Token.matchesAll_iff, tokens_spell hdot]
    · rw [if_neg hstar] at h
      cases h
      rw [spelled_iff_eq hstar hdot]
      simp [matchesName, hany, eq_comm]

end NamePattern

end Refactor
