import Mathlib.Computability.Language
import Refactor.Proofs.Pattern.Spelling
import Refactor.Proofs.Types.Supertypes

/-!
# Type patterns as regular expressions

The body of a type pattern reads as a regular expression, character by character (`expression`), and what
the body spells is the language of that (`mem_expression_iff`). A pattern matches this language whether it is
matched by its tokens or, if it has no wildcards, compared as text (`matchesName_iff_mem_language`).
-/

namespace Refactor

open Computability

/-- Regular expressions over characters. -/
inductive RegExp where
  | empty
  | char (c : Char)
  /-- One character of a class. -/
  | among (cls : Char → Bool)
  | seq (first second : RegExp)
  /-- Any number of times, none included. -/
  | many (e : RegExp)
  /-- Once or more often. -/
  | some (e : RegExp)

namespace RegExp

/-- The texts that the whole expression matches. -/
def language : RegExp → Language Char
  | empty => 1
  | char c => {[c]}
  | among cls => {w | ∃ c, cls c = true ∧ w = [c]}
  | seq first second => first.language * second.language
  | many e => e.language∗
  | some e => e.language * e.language∗

variable {w : List Char}

theorem mem_many_among {cls : Char → Bool} :
    w ∈ (many (among cls)).language ↔ ∀ c ∈ w, cls c = true := by
  rw [language, Language.mem_kstar]
  constructor
  · rintro ⟨parts, rfl, hparts⟩ c hc
    obtain ⟨part, hpart, hc⟩ := List.mem_flatten.1 hc
    obtain ⟨d, hd, rfl⟩ := hparts part hpart
    rwa [List.mem_singleton.1 hc]
  · intro h
    refine ⟨w.map ([·]), by simp [← List.flatMap_def], fun part hpart => ?_⟩
    obtain ⟨c, hc, rfl⟩ := List.mem_map.1 hpart
    exact ⟨c, h c hc, rfl⟩

theorem mem_some_among {cls : Char → Bool} :
    w ∈ (some (among cls)).language ↔ w ≠ [] ∧ ∀ c ∈ w, cls c = true := by
  show w ∈ (among cls).language * (many (among cls)).language ↔ _
  rw [Language.mem_mul]
  constructor
  · rintro ⟨_, ⟨c, hc, rfl⟩, rest, hrest, rfl⟩
    exact ⟨List.cons_ne_nil c rest, List.forall_mem_cons.2 ⟨hc, mem_many_among.1 hrest⟩⟩
  · rintro ⟨hne, hall⟩
    obtain ⟨c, rest, rfl⟩ := List.exists_cons_of_ne_nil hne
    obtain ⟨hc, hrest⟩ := List.forall_mem_cons.1 hall
    exact ⟨[c], ⟨c, hc, rfl⟩, rest, mem_many_among.2 hrest, rfl⟩

/-- A segment of a name and the dot after it. -/
def segment : RegExp := seq (some (among Token.isNameChar)) (char '.')

theorem mem_segment : w ∈ segment.language ↔ ∃ s, Token.IsSegment s ∧ w = s ++ ['.'] := by
  show w ∈ (some (among Token.isNameChar)).language * {['.']} ↔ _
  rw [Language.mem_mul]
  constructor
  · rintro ⟨s, hs, _, rfl, rfl⟩
    exact ⟨s, mem_some_among.1 hs, rfl⟩
  · rintro ⟨s, hs, rfl⟩
    exact ⟨s, mem_some_among.2 hs, ['.'], rfl, rfl⟩

theorem mem_many_segment :
    w ∈ (many segment).language ↔ ∃ segs, (∀ s ∈ segs, Token.IsSegment s) ∧ w = Token.dotted segs := by
  rw [language, Language.mem_kstar]
  constructor
  · rintro ⟨parts, rfl, hparts⟩
    induction parts with
    | nil => exact ⟨[], by simp, rfl⟩
    | cons part parts ih =>
      obtain ⟨hpart, hothers⟩ := List.forall_mem_cons.1 hparts
      obtain ⟨s, hs, rfl⟩ := mem_segment.1 hpart
      obtain ⟨segs, hsegs, hflat⟩ := ih hothers
      exact ⟨s :: segs, List.forall_mem_cons.2 ⟨hs, hsegs⟩, by
        rw [List.flatten_cons, hflat, Token.dotted, Token.dotted, List.flatMap_cons]⟩
  · rintro ⟨segs, hsegs, rfl⟩
    refine ⟨segs.map (· ++ ['.']), by rw [Token.dotted, List.flatMap_def], fun part hpart => ?_⟩
    obtain ⟨s, hs, rfl⟩ := List.mem_map.1 hpart
    exact mem_segment.2 ⟨s, hsegs s hs, rfl⟩

end RegExp

namespace TypePattern

/-- The body as a regular expression: two dots read as `\.(?:[\w$]+\.)*`, a star as `[\w$]*`, and all else
stands for itself. -/
def expression : List Char → RegExp
  | [] => .empty
  | '.' :: '.' :: ps => .seq (.seq (.char '.') (.many .segment)) (expression ps)
  | '*' :: ps => .seq (.many (.among Token.isNameChar)) (expression ps)
  | p :: ps => .seq (.char p) (expression ps)

/-- **What a body spells** is the language of its expression. -/
theorem mem_expression_iff (body cs : List Char) :
    cs ∈ (expression body).language ↔ Spelled body cs := by
  fun_induction expression body generalizing cs with
  | case1 => exact Language.mem_one cs
  | case2 ps ih =>
    rw [RegExp.language, RegExp.language, Language.mem_mul, Spelled]
    constructor
    · rintro ⟨_, hfirst, rest, hrest, rfl⟩
      obtain ⟨_, rfl, _, hmany, rfl⟩ := Language.mem_mul.1 hfirst
      obtain ⟨segs, hsegs, rfl⟩ := RegExp.mem_many_segment.1 hmany
      exact ⟨segs, rest, rfl, hsegs, (ih rest).1 hrest⟩
    · rintro ⟨segs, rest, rfl, hsegs, h⟩
      refine ⟨'.' :: Token.dotted segs, ?_, rest, (ih rest).2 h, rfl⟩
      exact Language.mem_mul.2 ⟨['.'], rfl, _, RegExp.mem_many_segment.2 ⟨segs, hsegs, rfl⟩, rfl⟩
  | case3 ps ih =>
    rw [RegExp.language, Language.mem_mul, Spelled]
    constructor
    · rintro ⟨name, hname, rest, hrest, rfl⟩
      exact ⟨name, rest, rfl, RegExp.mem_many_among.1 hname, (ih rest).1 hrest⟩
    · rintro ⟨name, rest, rfl, hname, h⟩
      exact ⟨name, RegExp.mem_many_among.2 hname, rest, (ih rest).2 h, rfl⟩
  | case4 p ps hdots hstar ih =>
    rw [RegExp.language, Language.mem_mul, spelled_char hdots hstar]
    constructor
    · rintro ⟨_, rfl, rest, hrest, rfl⟩
      exact ⟨rest, rfl, (ih rest).1 hrest⟩
    · rintro ⟨rest, rfl, h⟩
      exact ⟨[p], rfl, rest, (ih rest).2 h, rfl⟩

/-- The tokens have a wildcard if the body has one. -/
theorem any_isWild_iff {body : List Char} {ts : List Token} (h : tokenize body = .ok ts) :
    ts.any (·.isWild) = true ↔ '*' ∈ body ∨ ['.', '.'] <:+: body := by
  fun_induction tokenize body generalizing ts with
  | case1 =>
    cases h
    simp
  | case2 body ih =>
    obtain ⟨ts, -, h⟩ := bind_eq_ok.1 h
    cases h
    have hdots : ['.', '.'] <:+: '.' :: '.' :: body := ⟨[], body, rfl⟩
    simp [Token.isWild, hdots]
  | case3 body ih =>
    obtain ⟨ts, -, h⟩ := bind_eq_ok.1 h
    cases h
    simp [Token.isWild]
  | case4 c body hdots hstar _ ih =>
    obtain ⟨ts, hts, h⟩ := bind_eq_ok.1 h
    cases h
    -- No two dots begin here, since that case is taken before.
    have hstart : ¬ ['.', '.'] <+: c :: body := by
      rintro ⟨rest, hrest⟩
      obtain ⟨hc, hbody⟩ := List.cons.inj hrest
      exact hdots rest hc.symm hbody.symm
    have hc : '*' ≠ c := fun hc => hstar hc.symm
    rw [List.any_cons, show (Token.char c).isWild = false from rfl, Bool.false_or, ih hts]
    simp [List.infix_cons_iff, hstart, hc]
  | case5 => cases h

/-- **A type pattern matches its language.** The text that compiles is a body, with a plus after it or not.
The pattern matches the types whose erased name is what the body spells, and this is what the body matches as
a regular expression. Where the body has no wildcards and is only compared, its tokens would match the same. -/
theorem matchesName_iff_mem_language {text : String} {p : TypePattern} (hp : compile text = .ok p) :
    ∃ body, Text.trim text.toList = body ++ (if p.subtypes then ['+'] else []) ∧
      (p.hasWildcard = true ↔ '*' ∈ body ∨ ['.', '.'] <:+: body) ∧
      ∀ name : String,
        (p.matchesName name = true ↔ Spelled body (eraseGenerics name).toList) ∧
        (p.matchesName name = true ↔ (eraseGenerics name).toList ∈ (expression body).language) ∧
        (p.hasWildcard = false →
          (p.matchesName name = true ↔ (eraseGenerics name).toList = body) ∧
          (Token.matchesAll p.tokens (eraseGenerics name).toList = true ↔
            (eraseGenerics name).toList = body)) := by
  have hp := mapError_eq_ok.1 hp
  obtain ⟨hbody, hsubtypes, htokens⟩ := compileTrimmed_eq_ok hp
  refine ⟨p.body, ?_, any_isWild_iff htokens, fun name => ?_⟩
  · rw [hbody, hsubtypes, splitPlus_append]
  have hspelled : p.matchesName name = true ↔ Spelled p.body (eraseGenerics name).toList := by
    rw [matchesName_iff hp, Denotes, hbody, toList_eraseGenerics]
  refine ⟨hspelled, by rw [mem_expression_iff, hspelled], fun htame => ?_⟩
  -- A body with no wildcards spells only itself.
  have hself := spelled_of_tame htokens htame (eraseGenerics name).toList
  exact ⟨hspelled.trans hself, by rw [Token.matchesAll_iff, tokenize_spells htokens, hself]⟩

/-- The part of a name before the two dots may be cut off at any of its dots. -/
theorem matchesName_iff_mem_language_split :
    ∃ p, compile " *..*b+" = .ok p ∧ p.hasWildcard = true ∧
      "x.y.zb".toList ∈ (expression "*..*b".toList).language ∧
      Spelled "*..*b".toList "x.y.zb".toList ∧
      "zb".toList ∉ (expression "*..*b".toList).language := by
  have hrun : (compile " *..*b+").toOption.map (fun p => (p.subtypes, p.matchesName "x.y.zb<T>",
      p.matchesName "zb")) = some (true, true, false) := by
    decide +kernel
  have htrim : Text.trim " *..*b+".toList = "*..*b".toList ++ ['+'] := by decide +kernel
  cases hp : compile " *..*b+" with
  | error fault =>
    rw [hp] at hrun
    cases hrun
  | ok p =>
    rw [hp] at hrun
    obtain ⟨hsubtypes, hrun⟩ := Prod.mk.inj (Option.some.inj hrun)
    obtain ⟨hmatch, hmiss⟩ := Prod.mk.inj hrun
    obtain ⟨body, hbody, hwild, hmeans⟩ := matchesName_iff_mem_language hp
    obtain rfl : "*..*b".toList = body := by
      rw [htrim, hsubtypes] at hbody
      exact List.append_cancel_right hbody
    have herased : eraseGenerics "x.y.zb<T>" = "x.y.zb" := by decide +kernel
    have hhit := hmeans "x.y.zb<T>"
    rw [herased] at hhit
    refine ⟨p, rfl, hwild.2 (by decide), hhit.2.1.1 hmatch, hhit.1.1 hmatch, fun hmem => ?_⟩
    have herased : eraseGenerics "zb" = "zb" := by decide +kernel
    rw [(hmeans "zb").2.1.2 (by rwa [herased])] at hmiss
    cases hmiss

end TypePattern

end Refactor
