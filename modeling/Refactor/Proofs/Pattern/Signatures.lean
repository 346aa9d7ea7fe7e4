import Mathlib.Data.List.Forall2
import Refactor.Proofs.Pattern.Spelling
import Refactor.Proofs.Text.Split
import Refactor.Proofs.Types.Supertypes

/-!
# What method patterns mean

A pattern that compiles is written as a type, a name and slots between parentheses (`Written`). What it
says of a method is read off these texts: the name and the type are spelled, the parameter types fall
into runs for the slots in order, and the declaring type may be replaced by one above it, where the
pattern takes in subtypes or overriding methods (`Describes`). The matcher decides exactly this
(`matchesIn_iff_describes`).
-/

namespace Refactor

/-! ### Slots -/

namespace ParamSlot

/-- The list falls into runs, one for each slot in order. -/
def Dealt {σ : Type} (takes : σ → List String → Prop) (slots : List σ) (params : List String) : Prop :=
  ∃ runs : List (List String), runs.flatten = params ∧ List.Forall₂ takes slots runs

section Dealt

variable {σ τ : Type} {takes : σ → List String → Prop} {params : List String}

theorem dealt_nil : Dealt takes [] params ↔ params = [] := by
  constructor
  · rintro ⟨runs, rfl, hruns⟩
    cases hruns
    rfl
  · rintro rfl
    exact ⟨[], rfl, .nil⟩

theorem dealt_cons {slot : σ} {slots : List σ} : Dealt takes (slot :: slots) params ↔
    ∃ run left, params = run ++ left ∧ takes slot run ∧ Dealt takes slots left := by
  constructor
  · rintro ⟨runs, rfl, hruns⟩
    obtain ⟨run, others, hrun, hothers, rfl⟩ := List.forall₂_cons_left_iff.1 hruns
    exact ⟨run, others.flatten, rfl, hrun, others, rfl, hothers⟩
  · rintro ⟨run, left, rfl, hrun, runs, rfl, hruns⟩
    exact ⟨run :: runs, rfl, .cons hrun hruns⟩

/-- Slots that take the same are dealt the same. -/
theorem dealt_congr {takes' : τ → List String → Prop} {slots : List σ} {slots' : List τ}
    (h : List.Forall₂ (fun slot slot' => ∀ run, takes slot run ↔ takes' slot' run) slots slots') :
    Dealt takes slots params ↔ Dealt takes' slots' params := by
  induction h generalizing params with
  | nil => rw [dealt_nil, dealt_nil]
  | cons hslot _ ih => simp only [dealt_cons, hslot, ih]

end Dealt

/-- The runs of parameter types that a slot takes. -/
def Takes : ParamSlot → List String → Prop
  | type p, run => ∃ param, run = [param] ∧ p.matchesName param = true
  | one, run => ∃ param, run = [param]
  | rest, _ => True

theorem anySuffix_iff {α : Type} (test : List α → Bool) (xs : List α) :
    anySuffix test xs = true ↔ ∃ skipped left, xs = skipped ++ left ∧ test left = true := by
  induction xs with
  | nil => simp [anySuffix]
  | cons x xs ih =>
    rw [anySuffix, Bool.or_eq_true, ih]
    constructor
    · rintro (h | ⟨skipped, left, rfl, h⟩)
      · exact ⟨[], x :: xs, rfl, h⟩
      · exact ⟨x :: skipped, left, rfl, h⟩
    · rintro ⟨skipped, left, hcut, h⟩
      cases skipped with
      | nil =>
        obtain rfl : x :: xs = left := hcut
        exact Or.inl h
      | cons y skipped =>
        obtain ⟨rfl, rfl⟩ := List.cons.inj hcut
        exact Or.inr ⟨skipped, left, rfl, h⟩

/-- **The slots are tried in all ways.** -/
theorem matchAll_iff (slots : List ParamSlot) (params : List String) :
    matchAll slots params = true ↔ Dealt Takes slots params := by
  induction slots generalizing params with
  | nil => simp [matchAll, dealt_nil]
  | cons slot slots ih =>
    rw [dealt_cons]
    cases slot with
    | rest => simp [matchAll, anySuffix_iff, Takes, ih]
    | one =>
      cases params with
      | nil => simp [matchAll, Takes]
      | cons param params => simp [matchAll, Takes, ih, and_assoc]
    | type p =>
      cases params with
      | nil => simp [matchAll, Takes]
      | cons param params => simp [matchAll, Takes, ih, and_assoc]

/-- What the text of a slot says: two dots take any run, a star one type, and a type pattern one type
that it denotes. -/
inductive Fits : List Char → List String → Prop
  | rest (run : List String) : Fits ['.', '.'] run
  | one (param : String) : Fits ['*'] [param]
  | type {slot : List Char} {param : String} : slot ≠ ['.', '.'] → slot ≠ ['*'] →
      TypePattern.Denotes slot param → Fits slot [param]

theorem takes_iff_fits {text : List Char} {slot : ParamSlot} (h : compile text = .ok slot)
    (run : List String) : slot.Takes run ↔ Fits (Text.trim text) run := by
  unfold compile at h
  dsimp only at h
  obtain ⟨-, h⟩ := ite_error_eq_ok.1 h
  by_cases hrest : Text.trim text = ['.', '.']
  · rw [if_pos hrest] at h
    cases h
    rw [hrest]
    exact ⟨fun _ => .rest run, fun _ => trivial⟩
  rw [if_neg hrest] at h
  by_cases hone : Text.trim text = ['*']
  · rw [if_pos hone] at h
    cases h
    rw [hone]
    constructor
    · rintro ⟨param, rfl⟩
      exact .one param
    · intro hfits
      cases hfits with
      | one param => exact ⟨param, rfl⟩
      | @type _ param _ hne => exact ⟨param, rfl⟩
  rw [if_neg hone] at h
  obtain ⟨p, hp, rfl⟩ : ∃ p, TypePattern.compileTrimmed (Text.trim text) = .ok p ∧ type p = slot := by
    cases hp : TypePattern.compileTrimmed (Text.trim text) with
    | error e => rw [hp] at h; cases h
    | ok p => rw [hp] at h; cases h; exact ⟨p, rfl, rfl⟩
  -- What is left is a type pattern, which takes what it denotes.
  simp only [Takes, TypePattern.matchesName_iff hp]
  constructor
  · rintro ⟨param, rfl, hparam⟩
    exact .type hrest hone hparam
  · intro hfits
    generalize Text.trim text = trimmed at hfits hrest hone
    cases hfits with
    | rest => exact absurd rfl hrest
    | one => exact absurd rfl hone
    | @type _ param _ _ hparam => exact ⟨param, rfl, hparam⟩

end ParamSlot

namespace MethodPattern

/-- The texts of the slots in a parameter list. -/
def slotTexts (params : List Char) : List (List Char) :=
  if Text.trim params = [] then [] else (Text.pieces ',' params).map Text.trim

lemma mapM_eq_ok_iff {ε α β : Type} {f : α → Except ε β} {xs : List α} {ys : List β} :
    xs.mapM f = .ok ys ↔ List.Forall₂ (fun x y => f x = .ok y) xs ys := by
  constructor
  · intro h
    induction xs generalizing ys with
    | nil =>
      cases h
      exact .nil
    | cons x xs ih =>
      rw [List.mapM_cons] at h
      obtain ⟨y, hy, h⟩ := bind_eq_ok.1 h
      obtain ⟨ys, hys, h⟩ := bind_eq_ok.1 h
      cases h
      exact .cons hy (ih hys)
  · intro h
    induction h with
    | nil => rfl
    | cons hy _ ih =>
      rw [List.mapM_cons]
      exact bind_eq_ok.2 ⟨_, hy, bind_eq_ok.2 ⟨_, ih, rfl⟩⟩

theorem dealt_compileSlots {params : List Char} {slots : List ParamSlot} (h : compileSlots params = .ok slots)
    (types : List String) : ParamSlot.Dealt ParamSlot.Takes slots types ↔
      ParamSlot.Dealt ParamSlot.Fits (slotTexts params) types := by
  unfold compileSlots at h
  unfold slotTexts
  by_cases hblank : Text.trim params = []
  · rw [if_pos hblank] at h
    cases h
    rw [if_pos hblank, ParamSlot.dealt_nil, ParamSlot.dealt_nil]
  · rw [if_neg hblank] at h ⊢
    refine ParamSlot.dealt_congr ?_
    rw [List.forall₂_map_right_iff]
    exact (mapM_eq_ok_iff.1 h).flip.imp fun slot text hslot => ParamSlot.takes_iff_fits hslot

/-! ### The text of a pattern -/

/-- The text is a type and a name with blanks between them, and parameters between parentheses. -/
structure Written (text type name params : List Char) : Prop where
  parts : ∃ gap gap', text = type ++ (gap ++ (name ++ gap')) ++ '(' :: (params ++ [')']) ∧ gap ≠ [] ∧
    Text.Blank gap ∧ Text.Blank gap'
  words : Text.IsWord type ∧ Text.IsWord name
  unopened : '(' ∉ type ++ name ++ params
  unclosed : ')' ∉ params

lemma takeWhile_append_tail {text : List Char} (h : '(' ∈ text) :
    text.takeWhile (· ≠ '(') ++ '(' :: (text.dropWhile (· ≠ '(')).tail = text := by
  induction text with
  | nil => simp at h
  | cons c text ih =>
    by_cases hc : c = '('
    · simp [hc]
    · have hmem : '(' ∈ text := by simpa [Ne.symm hc] using h
      simpa [hc] using ih hmem

/-- **The parts of a text that compiles**, and what is made of them. -/
theorem exists_parts_of_compileTrimmed {text : List Char} {p : MethodPattern} (h : compileTrimmed text = .ok p)
    (hhead : ∀ c ∈ text.head?, Text.isBlank c = false) :
    ∃ type name params declaring named slots, Written text type name params ∧
      TypePattern.compileTrimmed type = .ok declaring ∧ NamePattern.compile name = .ok named ∧
      compileSlots params = .ok slots ∧ p = ⟨String.ofList text, declaring, named, slots, false⟩ := by
  simp only [compileTrimmed, throw, throwThe, MonadExceptOf.throw] at h
  obtain ⟨-, h⟩ := ite_error_eq_ok.1 h
  obtain ⟨hopen, h⟩ := ite_error_eq_ok.1 h
  obtain ⟨hclosed, h⟩ := ite_error_eq_ok.1 h
  obtain ⟨hnested, h⟩ := ite_error_eq_ok.1 h
  rw [not_not] at hopen hclosed
  rw [not_or] at hnested
  have hcut := takeWhile_append_tail hopen
  have hunopened : '(' ∉ text.takeWhile (· ≠ '(') := fun hmem => by
    simpa using List.all_eq_true.1 List.all_takeWhile '(' hmem
  generalize text.takeWhile (· ≠ '(') = head at h hcut hunopened
  generalize (text.dropWhile (· ≠ '(')).tail = after at h hcut hclosed hnested
  have hafter : after.dropLast ++ [')'] = after := List.dropLast_append_getLast? _ hclosed
  match hwords : Text.words head with
  | [] | [_] | _ :: _ :: _ :: _ =>
    rw [hwords] at h
    cases h
  | [type, name] =>
    rw [hwords] at h
    -- The head begins as the text does, and so with no blank.
    have hblank : ∀ c ∈ head.head?, Text.isBlank c = false := by
      intro c hc
      refine hhead c ?_
      rw [← hcut]
      cases head with
      | nil => cases hc
      | cons d head => exact hc
    obtain ⟨gap, gap', rfl, hgap, hgapBlank, hgapBlank', htype, hname⟩ := Text.words_eq_pair hwords hblank
    obtain ⟨slots, hslots, h⟩ := bind_eq_ok.1 h
    obtain ⟨declaring, hdeclaring, h⟩ := bind_eq_ok.1 h
    obtain ⟨named, hnamed, h⟩ := bind_eq_ok.1 h
    cases h
    refine ⟨type, name, after.dropLast, declaring, named, slots, ⟨⟨gap, gap', ?_, hgap, hgapBlank, hgapBlank'⟩,
      ⟨htype, hname⟩, ?_, hnested.2⟩, hdeclaring, hnamed, hslots, rfl⟩
    · rw [hafter, hcut]
    · simp only [List.mem_append, not_or] at hunopened ⊢
      exact ⟨⟨hunopened.1, hunopened.2.2.1⟩, hnested.1⟩

theorem compileTrimmed_eq_ok {text : List Char} {p : MethodPattern} (h : compileTrimmed text = .ok p)
    (hhead : ∀ c ∈ text.head?, Text.isBlank c = false) :
    ∃ type name params, Written text type name params ∧
      TypePattern.compileTrimmed type = .ok p.declaring ∧ NamePattern.compile name = .ok p.name ∧
      compileSlots params = .ok p.slots := by
  obtain ⟨type, name, params, declaring, named, slots, hwritten, hdeclaring, hnamed, hslots, rfl⟩ :=
    exists_parts_of_compileTrimmed h hhead
  exact ⟨type, name, params, hwritten, hdeclaring, hnamed, hslots⟩

/-- A pattern as compiled keeps its text, and leaves overriding methods out. -/
theorem text_of_compile {text : String} {p : MethodPattern} (hp : compile text = .ok p) :
    p.text = String.ofList (Text.trim text.toList) ∧ p.overrides = false := by
  obtain ⟨-, -, -, -, -, -, -, -, -, -, rfl⟩ :=
    exists_parts_of_compileTrimmed (mapError_eq_ok.1 hp) (Text.isBlank_head?_trim text.toList)
  exact ⟨rfl, rfl⟩

/-! ### What a pattern says of a method -/

/-- The class declares a method of that name and those erased parameter types. -/
def Declares (c : ClassType) (m : MethodType) : Prop :=
  ∃ d ∈ c.methods, d.name = m.name ∧
    d.parameterTypes.map eraseGenerics = m.parameterTypes.map eraseGenerics

/-- What a pattern with that type, name and parameter list says of a method. -/
structure Describes (type name params : List Char) (overrides : Bool) (h : Hierarchy) (m : MethodType) :
    Prop where
  name : name = ['*'] ∨ Spelled name m.name.toList
  params : ParamSlot.Dealt ParamSlot.Fits (slotTexts params) m.parameterTypes
  declaring : TypePattern.Denotes type m.declaringType ∨
    (type.getLast? = some '+' ∧ ∃ c, h.Above m.declaringType c ∧ TypePattern.Denotes type c.name) ∨
    overrides = true ∧ ∃ c, h.Above m.declaringType c ∧ TypePattern.Denotes type c.name ∧ Declares c m

theorem isSome_declaredMethod (c : ClassType) (m : MethodType) :
    (c.declaredMethod m).isSome = true ↔ Declares c m := by
  simp [ClassType.declaredMethod, Declares, MethodType.sameSignature]

/-- The search leaves out the type it starts from. That makes no difference to one that accepts no class
of this name. -/
theorem value_anySupertype {h : Hierarchy} {accept : ClassType → Bool} {name : String}
    (hstart : ∀ c, accept c = true → c.name ≠ eraseGenerics name) :
    (h.anySupertype name accept).value = true ↔ ∃ c, h.Above name c ∧ accept c = true := by
  have hfound := h.search_found_iff accept name
  constructor
  · intro hvalue
    obtain ⟨c, hc, -, haccept⟩ := hfound.1 hvalue
    exact ⟨c, hc, haccept⟩
  · rintro ⟨c, hc, haccept⟩
    exact hfound.2 ⟨c, hc, hstart c haccept, haccept⟩

theorem value_matchesIn_type (p : TypePattern) (h : Hierarchy) (name : String) :
    (p.matchesIn h name).value = true ↔ p.matchesName name = true ∨
      p.subtypes = true ∧ (h.anySupertype name fun c => p.matchesName c.name).value = true := by
  unfold TypePattern.matchesIn
  split
  · simp [*]
  · split <;> simp [*]

theorem value_matchesIn (p : MethodPattern) (h : Hierarchy) (m : MethodType) :
    (p.matchesIn h m).value = true ↔ (p.name.matchesName m.name = true ∧
      ParamSlot.matchAll p.slots m.parameterTypes = true) ∧
      ((p.declaring.matchesIn h m.declaringType).value = true ∨ p.overrides = true ∧
        (h.anySupertype m.declaringType fun c =>
          (c.declaredMethod m).isSome && p.declaring.matchesName c.name).value = true) := by
  have hshape : p.matchesShape m = true ↔ p.name.matchesName m.name = true ∧
      ParamSlot.matchAll p.slots m.parameterTypes = true := by
    rw [matchesShape, Bool.and_eq_true]
  rw [← hshape]
  unfold matchesIn
  cases hm : p.matchesShape m with
  | false => simp
  | true =>
    rw [Bool.not_true, if_neg Bool.false_ne_true, Traced.value_bind]
    cases hself : (p.declaring.matchesIn h m.declaringType).value with
    | true => simp
    | false => cases hoverrides : p.overrides <;> simp

/-- The type of a pattern denotes the declaring type, or one above it where that counts. -/
theorem value_declaring {p : TypePattern} {type : List Char} (hp : TypePattern.compileTrimmed type = .ok p)
    (overrides : Bool) (h : Hierarchy) (m : MethodType) :
    ((p.matchesIn h m.declaringType).value = true ∨ overrides = true ∧
      (h.anySupertype m.declaringType fun c =>
        (c.declaredMethod m).isSome && p.matchesName c.name).value = true) ↔
      (TypePattern.Denotes type m.declaringType ∨
        (type.getLast? = some '+' ∧ ∃ c, h.Above m.declaringType c ∧ TypePattern.Denotes type c.name) ∨
        overrides = true ∧ ∃ c, h.Above m.declaringType c ∧ TypePattern.Denotes type c.name ∧
          Declares c m) := by
  have hdenotes := TypePattern.matchesName_iff hp
  have hplus : p.subtypes = true ↔ type.getLast? = some '+' := by
    rw [(TypePattern.compileTrimmed_eq_ok hp).2.1]
    unfold TypePattern.splitPlus
    split <;> simp [*]
  rw [value_matchesIn_type, hdenotes, hplus]
  by_cases hself : TypePattern.Denotes type m.declaringType
  · simp [hself]
  · -- A class of the name of the start is accepted only if the start is.
    have hstart : ∀ c : ClassType, p.matchesName c.name = true → c.name ≠ eraseGenerics m.declaringType := by
      intro c hc heq
      rw [hdenotes, heq, TypePattern.Denotes, toList_eraseGenerics, eraseChars_eraseChars] at hc
      exact hself hc
    rw [value_anySupertype hstart, value_anySupertype fun c hc => hstart c (Bool.and_eq_true_iff.1 hc).2]
    simp only [hself, false_or, hdenotes, Bool.and_eq_true, isSome_declaredMethod]
    simp only [and_comm (a := Declares _ _)]

/-- **A pattern means what its text says.** A text that compiles is written as a type, a name and a
parameter list, and the pattern matches a method in a table of classes exactly if these describe it. -/
theorem matchesIn_iff_describes {text : String} {p : MethodPattern} (hp : compile text = .ok p) :
    ∃ type name params, Written (Text.trim text.toList) type name params ∧
      ∀ (overrides : Bool) (h : Hierarchy) (m : MethodType),
        ((p.withOverrides overrides).matchesIn h m).value = true ↔
          Describes type name params overrides h m := by
  obtain ⟨type, name, params, hwritten, htype, hname, hparams⟩ :=
    compileTrimmed_eq_ok (mapError_eq_ok.1 hp) (Text.isBlank_head?_trim text.toList)
  refine ⟨type, name, params, hwritten, fun overrides h m => ?_⟩
  have hdeclaring := value_declaring htype overrides h m
  have hparams : ParamSlot.matchAll p.slots m.parameterTypes = true ↔
      ParamSlot.Dealt ParamSlot.Fits (slotTexts params) m.parameterTypes :=
    (ParamSlot.matchAll_iff _ _).trans (dealt_compileSlots hparams _)
  rw [value_matchesIn, and_assoc]
  constructor
  · rintro ⟨h1, h2, h3⟩
    exact ⟨(NamePattern.matchesName_iff hname _).1 h1, hparams.1 h2, hdeclaring.1 h3⟩
  · rintro ⟨h1, h2, h3⟩
    exact ⟨(NamePattern.matchesName_iff hname _).2 h1, hparams.2 h2, hdeclaring.2 h3⟩

/-- Two classes, each above the other, and an interface above one of them. The class above that is not
known. -/
def entwined : Hierarchy := .ofList [
  ((ClassType.mk "a.Leaf" none [] []).extending "a.Mid<T>"),
  ((ClassType.mk "a.Mid" none [] []).extending "a.Leaf").implementing "org.lib.Base<T>",
  ((ClassType.mk "org.lib.Base" none [] []).extending "org.Unknown").declaring "getAll"
    ["long", "java.util.List<T>", "int"]]

/-- The getters of the interface with some parameters before the last two. -/
def getters : String := " org..Base  get*( .., java..* ,int )"

def getAll : MethodType := ⟨"a.Leaf<X>", "getAll", ["long", "java.util.List<X>", "int"], none⟩

/-- Through the cycle the method overrides one of the interface, two steps up. -/
theorem matchesIn_iff_describes_entwined :
    ∃ p, compile getters = .ok p ∧
      ∃ type name params, Written "org..Base  get*( .., java..* ,int )".toList type name params ∧
        Describes type name params true entwined getAll ∧
        ¬ Describes type name params false entwined getAll := by
  have hrun : (compile getters).toOption.map (fun p => (((p.withOverrides true).matchesIn entwined getAll).value,
      ((p.withOverrides false).matchesIn entwined getAll).value)) = some (true, false) := by
    decide +kernel
  have htrim : Text.trim getters.toList = "org..Base  get*( .., java..* ,int )".toList := by
    decide +kernel
  cases hp : compile getters with
  | error fault =>
    rw [hp] at hrun
    cases hrun
  | ok p =>
    rw [hp] at hrun
    obtain ⟨hmatch, hmiss⟩ := Prod.mk.inj (Option.some.inj hrun)
    obtain ⟨type, name, params, hwritten, hmeans⟩ := matchesIn_iff_describes hp
    refine ⟨p, rfl, type, name, params, htrim ▸ hwritten, (hmeans true entwined getAll).1 hmatch, ?_⟩
    intro hdescribes
    rw [(hmeans false entwined getAll).2 hdescribes] at hmiss
    cases hmiss

end MethodPattern

end Refactor
