import Refactor.Recipe.Stock
import Refactor.Proofs.Pattern.Grammar
import Refactor.Proofs.Pipeline

/-!
# What the ids of stock recipes tell apart

A pipeline takes two recipes of one id for one recipe. The id of a stock recipe is written from the family of
the recipe and from its parameters. From the id one can read back the family (`StockRecipe.id_eq_iff`), the node
that is renamed (`NodeId.text_injective`) and the pattern of methods (`MethodPattern.Compiled.eq_of_text_eq`).

Not all is written there, however: a recipe that renames methods leaves out whether overriding methods count, and
one that moves a package leaves out the policy, and does not show which of several arrows stands between its two
packages. The recipes of one id are those that are `StockRecipe.Alike`, and a pipeline refuses a recipe just when
one alike was offered before (`StockRecipe.id_eq_iff_alike`).
-/

namespace Refactor

/-! ### Texts with an arrow -/

/-- Both pairs are written alike with an arrow between, and the second is cut at a later arrow. -/
def CutLater (front back front' back' : String) : Prop :=
  ∃ middle, front' = front ++ "->" ++ middle ∧ back = middle ++ "->" ++ back'

/-- What stands before an arrow, if it starts with an arrow itself. -/
theorem cut_of_arrow {middle back back' : List Char} (h : '-' :: '>' :: back = middle ++ '-' :: '>' :: back') :
    (middle = [] ∧ back = back') ∨ ∃ rest, middle = '-' :: '>' :: rest ∧ back = rest ++ '-' :: '>' :: back' := by
  match middle, h with
  | [], h => exact Or.inl ⟨rfl, by simpa using h⟩
  | [c], h => simp at h
  | c :: d :: rest, h =>
    simp only [List.cons_append, List.cons.injEq] at h
    obtain ⟨rfl, rfl, hback⟩ := h
    exact Or.inr ⟨rest, rfl, hback⟩

variable {front back front' back' : String}

theorem CutLater.arrow_eq (h : CutLater front back front' back') :
    front ++ "->" ++ back = front' ++ "->" ++ back' := by
  obtain ⟨middle, rfl, rfl⟩ := h
  simp only [String.append_assoc]

/-- What a longer text before the arrow is, if the texts with the arrow are equal. -/
theorem cut_of_append {middle : List Char} (hfront : front'.toList = front.toList ++ middle)
    (hback : '-' :: '>' :: back.toList = middle ++ '-' :: '>' :: back'.toList) :
    (front = front' ∧ back = back') ∨ CutLater front back front' back' := by
  rcases cut_of_arrow hback with ⟨rfl, hsame⟩ | ⟨rest, rfl, hrest⟩
  · exact Or.inl ⟨String.toList_injective (by simp [hfront]), String.toList_injective hsame⟩
  · exact Or.inr ⟨String.ofList rest, String.toList_injective (by simp [hfront]),
      String.toList_injective (by simp [hrest])⟩

/-- Two texts with an arrow are equal only if they are cut alike, or one at a later arrow. -/
theorem arrow_eq_iff : front ++ "->" ++ back = front' ++ "->" ++ back' ↔
    (front = front' ∧ back = back') ∨ CutLater front back front' back' ∨ CutLater front' back' front back := by
  constructor
  · intro h
    have hlist : front.toList ++ '-' :: '>' :: back.toList = front'.toList ++ '-' :: '>' :: back'.toList := by
      simpa using congrArg String.toList h
    rcases List.append_eq_append_iff.1 hlist with ⟨middle, hfront, hback⟩ | ⟨middle, hfront, hback⟩
    · exact (cut_of_append hfront hback).imp_right Or.inl
    · exact (cut_of_append hfront hback).imp (fun h => ⟨h.1.symm, h.2.symm⟩) Or.inr
  · rintro (⟨rfl, rfl⟩ | h | h)
    · rfl
    · exact h.arrow_eq
    · exact h.arrow_eq.symm

/-- One of the two characters of the arrow is not in the text before it. -/
def ArrowFree (front : String) : Prop := ∃ c ∈ "->".toList, c ∉ front.toList

theorem not_cutLater (h : ArrowFree front') : ¬ CutLater front back front' back' := by
  obtain ⟨c, hc, hfront⟩ := h
  rintro ⟨middle, rfl, -⟩
  rw [String.toList_append, String.toList_append] at hfront
  exact hfront (List.mem_append_left _ (List.mem_append_right _ hc))

/-- Where no arrow stands before the cut there is one cut only. -/
theorem arrow_inj (h : ArrowFree front) (h' : ArrowFree front') :
    front ++ "->" ++ back = front' ++ "->" ++ back' ↔ front = front' ∧ back = back' := by
  rw [arrow_eq_iff, or_iff_left (not_or.2 ⟨not_cutLater h', not_cutLater h⟩)]

/-! ### The ids of nodes -/

namespace NodeId

def hexDigits : List Char := "0123456789abcdef".toList

/-- The number that is written with the digits. -/
def readHex (digits : List Char) : Nat := digits.foldl (fun n c => 16 * n + hexDigits.idxOf c) 0

theorem digitChar_spec : ∀ d < 16, Nat.digitChar d ∈ hexDigits ∧ hexDigits.idxOf (Nat.digitChar d) = d := by
  decide +kernel

theorem toDigits_spec (n : Nat) :
    (∀ c ∈ Nat.toDigits 16 n, c ∈ hexDigits) ∧ readHex (Nat.toDigits 16 n) = n := by
  induction n using Nat.strongRecOn with
  | ind n ih =>
    by_cases hn : n < 16
    · obtain ⟨hmem, hread⟩ := digitChar_spec n hn
      rw [Nat.toDigits_of_lt_base hn]
      exact ⟨by simpa using hmem, by simpa [readHex] using hread⟩
    · obtain ⟨hmem, hread⟩ := ih (n / 16) (by omega)
      obtain ⟨hlast, hvalue⟩ := digitChar_spec (n % 16) (Nat.mod_lt n (by decide))
      rw [Nat.toDigits_of_base_le (by decide) (Nat.le_of_not_lt hn)]
      refine ⟨fun c hc => ?_, ?_⟩
      · rcases List.mem_append.1 hc with hc | hc
        · exact hmem c hc
        · exact List.mem_singleton.1 hc ▸ hlast
      · rw [readHex] at hread ⊢
        rw [List.foldl_append, hread, List.foldl_cons, List.foldl_nil, hvalue, Nat.div_add_mod]

/-- The digits of an id, at least thirty-two. -/
def padded (id : NodeId) : List Char :=
  List.replicate (32 - (Nat.toDigits 16 id.value).length) '0' ++ Nat.toDigits 16 id.value

theorem mem_hexDigits_of_mem_padded {id : NodeId} {c : Char} (hc : c ∈ id.padded) : c ∈ hexDigits := by
  rcases List.mem_append.1 hc with hc | hc
  · rw [List.eq_of_mem_replicate hc]
    decide
  · exact (toDigits_spec id.value).1 c hc

theorem readHex_padded (id : NodeId) : readHex id.padded = id.value := by
  have hzeros : ∀ k, (List.replicate k '0').foldl (fun n c => 16 * n + hexDigits.idxOf c) 0 = 0 := by
    intro k
    induction k with
    | zero => rfl
    | succ k ih => rwa [List.replicate_succ, List.foldl_cons]
  rw [readHex, padded, List.foldl_append, hzeros]
  exact (toDigits_spec id.value).2

/-- The digits are the text without the dashes. -/
theorem filter_text (id : NodeId) : id.text.toList.filter (· ≠ '-') = id.padded := by
  have hdigits : ∀ c ∈ id.padded, decide (c ≠ '-') = true := fun c hc => decide_eq_true fun hdash => by
    have hmem := mem_hexDigits_of_mem_padded (hdash ▸ hc)
    revert hmem
    decide
  have hpart : ∀ {part : List Char}, part ⊆ id.padded → part.filter (· ≠ '-') = part := fun hpart =>
    List.filter_eq_self.2 fun c hc => hdigits c (hpart hc)
  have htext : id.text.toList = id.padded.take 8 ++ ['-'] ++ (id.padded.drop 8).take 4 ++ ['-'] ++
      (id.padded.drop 12).take 4 ++ ['-'] ++ (id.padded.drop 16).take 4 ++ ['-'] ++ id.padded.drop 20 :=
    String.toList_ofList
  have hdrop (k : Nat) : id.padded.drop k = (id.padded.drop k).take 4 ++ id.padded.drop (k + 4) := by
    rw [← List.drop_drop, List.take_append_drop]
  rw [htext]
  simp only [List.filter_append, hpart (List.take_subset _ _), hpart (List.drop_subset _ _),
    hpart (List.Subset.trans (List.take_subset _ _) (List.drop_subset _ _))]
  -- The groups stand next to one another, so that without the dashes they are the digits again.
  have hdash : ['-'].filter (· ≠ '-') = [] := by decide
  rw [hdash]
  simp only [List.append_nil, List.append_assoc]
  rw [← hdrop 16, ← hdrop 12, ← hdrop 8, List.take_append_drop]

theorem value_injective {a b : NodeId} (h : a.value = b.value) : a = b := by
  cases a with
  | given v =>
    cases b with
    | given w => rw [UInt64.toNat_inj.1 h]
    | minted n => exact absurd h (by have := v.toNat_lt; simp only [value]; omega)
  | minted n =>
    cases b with
    | given w => exact absurd h (by have := w.toNat_lt; simp only [value]; omega)
    | minted k => rw [Nat.add_left_cancel h]

theorem text_injective {a b : NodeId} (h : a.text = b.text) : a = b :=
  value_injective (by rw [← readHex_padded a, ← readHex_padded b, ← filter_text, ← filter_text, h])

theorem arrowFree_text (id : NodeId) : ArrowFree id.text := by
  refine ⟨'>', by decide, fun hmem => ?_⟩
  have hpadded : '>' ∈ id.padded := by
    rw [← filter_text]
    exact List.mem_filter.2 ⟨hmem, by decide⟩
  have hdigit := mem_hexDigits_of_mem_padded hpadded
  revert hdigit
  decide

end NodeId

/-! ### The texts of patterns -/

namespace MethodPattern

/-- The pattern comes from a text. Whether overriding methods count is set after that. -/
def Compiled (p : MethodPattern) : Prop :=
  ∃ text q, compile text = .ok q ∧ ∃ overrides, p = q.withOverrides overrides

variable {p p' : MethodPattern}

theorem Compiled.compileTrimmed_text (h : p.Compiled) :
    compileTrimmed p.text.toList = .ok (p.withOverrides false) ∧ ∀ c ∈ p.text.toList.head?, Text.isBlank c = false := by
  obtain ⟨text, q, hq, overrides, rfl⟩ := h
  obtain ⟨htext, hoverrides⟩ := text_of_compile hq
  have hsame : (q.withOverrides overrides).withOverrides false = q := by
    cases q
    cases hoverrides
    rfl
  have htrimmed : (q.withOverrides overrides).text.toList = Text.trim text.toList := by
    rw [withOverrides, htext, String.toList_ofList]
  rw [hsame, htrimmed]
  exact ⟨mapError_eq_ok.1 hq, Text.isBlank_head?_trim text.toList⟩

/-- **A pattern is its text**, but for the overriding methods. -/
theorem Compiled.eq_of_text_eq (h : p.Compiled) (h' : p'.Compiled) (htext : p.text = p'.text) :
    p.withOverrides false = p'.withOverrides false := by
  have hp := h.compileTrimmed_text.1
  rw [htext, h'.compileTrimmed_text.1] at hp
  exact (Except.ok.inj hp).symm

/-- The two parts of a pattern, around the parenthesis that opens, and the characters that stand in neither. -/
theorem Compiled.text_eq (h : p.Compiled) : ∃ head params, p.text.toList = head ++ '(' :: (params ++ [')']) ∧
    ∀ c ∈ ['-', '('], c ∉ head ∧ c ∉ params := by
  obtain ⟨hcompiled, hhead⟩ := h.compileTrimmed_text
  obtain ⟨type, name, params, slots, hgrammar⟩ := grammatical_of_compileTrimmed hcompiled hhead
  obtain ⟨gap, gap', htext, -, hgap, hgap'⟩ := hgrammar.parts
  refine ⟨_, params, htext, fun c hc => ?_⟩
  have hother : Text.isBlank c = false ∧ Text.isAlphanumeric c = false ∧
      c ∉ [',', '+', '_', '$', '*', '[', ']', '.'] ∧ c ∉ ['+', '_', '$', '*', '[', ']', '.', '<', '>'] := by
    simp only [List.mem_cons, List.not_mem_nil, or_false] at hc
    rcases hc with rfl | rfl
    · decide +kernel
    · decide +kernel
  obtain ⟨hblank, hletter, hparams, hsigns⟩ := hother
  exact ⟨not_mem_head hgrammar.type hgrammar.name hgap hgap' hblank hletter hsigns,
    hgrammar.params.not_mem hgrammar.slots hblank hletter hparams⟩

theorem Compiled.arrowFree_text (h : p.Compiled) : ArrowFree p.text := by
  obtain ⟨head, params, htext, hnone⟩ := h.text_eq
  obtain ⟨hhead, hparams⟩ := hnone '-' (by simp)
  exact ⟨'-', by decide, by simp [htext, hhead, hparams]⟩

/-- A pattern has one parenthesis that opens. -/
theorem Compiled.count_text (h : p.Compiled) : p.text.toList.count '(' = 1 := by
  obtain ⟨head, params, htext, hnone⟩ := h.text_eq
  obtain ⟨hhead, hparams⟩ := hnone '(' (by simp)
  simp [htext, List.count_eq_zero_of_not_mem hhead, List.count_eq_zero_of_not_mem hparams]

end MethodPattern

/-! ### Headings and details -/

namespace StockRecipe

/-- What the ids of a family of recipes start with. -/
def heading : StockRecipe → String
  | changeFieldVisibility _ => "change-field-visibility:"
  | renameVariable .. => "rename-variable:"
  | findMethods _ => "find-methods:"
  | changeMethodName .. => "change-method-name:"
  | changePackage .. => "change-package:"
  | unwrapParentheses => "unwrap-parentheses"

/-- What an id shows of the parameters. -/
def details : StockRecipe → String
  | changeFieldVisibility v => v.keyword
  | renameVariable declaration newName => declaration.text ++ "->" ++ newName
  | findMethods p => p.text ++ if p.overrides then " (overrides)" else ""
  | changeMethodName p newName => p.text ++ "->" ++ newName
  | changePackage m newPackage => m.package ++ "->" ++ newPackage
  | unwrapParentheses => ""

theorem id_eq (r : StockRecipe) : r.recipe.id = r.heading ++ r.details := by
  -- Ids are written from the left, and unfolding them would open the texts of the headings.
  have hassoc (a b c d : String) : a ++ b ++ c ++ d = a ++ (b ++ c ++ d) := by simp only [String.append_assoc]
  cases r with
  | changeFieldVisibility v => rfl
  | renameVariable declaration newName => exact hassoc _ _ _ _
  | findMethods p => exact String.append_assoc
  | changeMethodName p newName => exact hassoc _ _ _ _
  | changePackage m newPackage => exact hassoc _ _ _ _
  | unwrapParentheses => exact String.append_empty.symm

def headings : List String := ["change-field-visibility:", "rename-variable:", "find-methods:",
  "change-method-name:", "change-package:", "unwrap-parentheses"]

theorem heading_mem (r : StockRecipe) : r.heading ∈ headings := by
  cases r <;> simp [heading, headings]

/-- No heading starts another one. -/
theorem eq_of_isPrefix : ∀ x ∈ headings, ∀ y ∈ headings, x.toList <+: y.toList → x = y := by
  decide +kernel

theorem heading_eq_of_id_eq {a b : StockRecipe} (h : a.recipe.id = b.recipe.id) : a.heading = b.heading := by
  have hstart (r : StockRecipe) : r.heading.toList <+: r.recipe.id.toList := by
    rw [id_eq, String.toList_append]
    exact List.prefix_append _ _
  rcases List.prefix_or_prefix_of_prefix (hstart a) (h ▸ hstart b) with hab | hba
  · exact eq_of_isPrefix _ a.heading_mem _ b.heading_mem hab
  · exact (eq_of_isPrefix _ b.heading_mem _ a.heading_mem hba).symm

/-- Equal ids have equal parts. -/
theorem id_eq_iff (a b : StockRecipe) :
    a.recipe.id = b.recipe.id ↔ a.heading = b.heading ∧ a.details = b.details := by
  constructor
  · intro h
    have hheading := heading_eq_of_id_eq h
    rw [id_eq, id_eq, hheading, String.append_right_inj] at h
    exact ⟨hheading, h⟩
  · rintro ⟨hheading, hdetails⟩
    rw [id_eq, id_eq, hheading, hdetails]

/-! ### Recipes of one id -/

/-- The recipe can be made: its pattern, if it has one, compiles. -/
def Constructed : StockRecipe → Prop
  | findMethods p => p.Compiled
  | changeMethodName p _ => p.Compiled
  | _ => True

/-- The recipes are of one family and agree in what an id shows of their parameters. That is everything but
whether a renamed method takes those that override it with it, which names below a moved package count, and
which arrow stands between its old name and its new one. -/
def Alike : StockRecipe → StockRecipe → Prop
  | changeFieldVisibility v, changeFieldVisibility v' => v = v'
  | renameVariable declaration newName, renameVariable declaration' newName' =>
    declaration = declaration' ∧ newName = newName'
  | findMethods p, findMethods p' => p = p'
  | changeMethodName p newName, changeMethodName p' newName' =>
    p.withOverrides false = p'.withOverrides false ∧ newName = newName'
  | changePackage m newPackage, changePackage m' newPackage' =>
    (m.package = m'.package ∧ newPackage = newPackage') ∨
      CutLater m.package newPackage m'.package newPackage' ∨ CutLater m'.package newPackage' m.package newPackage
  | unwrapParentheses, unwrapParentheses => True
  | _, _ => False

theorem details_changeFieldVisibility {v v' : Visibility} :
    (changeFieldVisibility v).details = (changeFieldVisibility v').details ↔
      (changeFieldVisibility v).Alike (changeFieldVisibility v') := by
  cases v <;> cases v' <;> simp [details, Alike, Visibility.keyword]

theorem details_renameVariable {declaration declaration' : NodeId} {newName newName' : String} :
    (renameVariable declaration newName).details = (renameVariable declaration' newName').details ↔
      (renameVariable declaration newName).Alike (renameVariable declaration' newName') := by
  rw [details, details, arrow_inj declaration.arrowFree_text declaration'.arrowFree_text]
  exact and_congr_left fun _ => ⟨NodeId.text_injective, fun h => h ▸ rfl⟩

variable {p p' : MethodPattern}

/-- The word that shows that overriding methods count has a parenthesis of its own, and a pattern has just one. -/
theorem details_findMethods (hp : p.Compiled) (hp' : p'.Compiled) :
    (findMethods p).details = (findMethods p').details ↔ (findMethods p).Alike (findMethods p') := by
  refine ⟨fun h => ?_, fun h : p = p' => h ▸ rfl⟩
  -- An id with two parentheses that open is one with the word.
  have hcounts := congrArg (·.toList.count '(') h
  have hoverrides : p.overrides = p'.overrides := by
    cases ho : p.overrides <;> cases ho' : p'.overrides <;>
      simp [details, ho, ho', hp.count_text, hp'.count_text] at hcounts ⊢
  rw [details, details, hoverrides, String.append_left_inj] at h
  have hsame := hp.eq_of_text_eq hp' h
  calc p = (p.withOverrides false).withOverrides p.overrides := rfl
    _ = (p'.withOverrides false).withOverrides p'.overrides := by rw [hsame, hoverrides]

theorem details_changeMethodName (hp : p.Compiled) (hp' : p'.Compiled) {newName newName' : String} :
    (changeMethodName p newName).details = (changeMethodName p' newName').details ↔
      (changeMethodName p newName).Alike (changeMethodName p' newName') := by
  rw [details, details, arrow_inj hp.arrowFree_text hp'.arrowFree_text]
  exact and_congr_left fun _ => ⟨hp.eq_of_text_eq hp', fun h => congrArg (·.text) h⟩

theorem details_changePackage {m m' : PackageMatcher} {newPackage newPackage' : String} :
    (changePackage m newPackage).details = (changePackage m' newPackage').details ↔
      (changePackage m newPackage).Alike (changePackage m' newPackage') := by
  rw [details, details, arrow_eq_iff]
  rfl

theorem not_alike_of_heading_ne {a b : StockRecipe} (h : a.heading ≠ b.heading) : ¬ a.Alike b := by
  intro halike
  apply h
  cases a <;> cases b <;> first | rfl | exact halike.elim

theorem details_eq_iff {a b : StockRecipe} (ha : a.Constructed) (hb : b.Constructed) (h : a.heading = b.heading) :
    a.details = b.details ↔ a.Alike b := by
  cases a with
  | changeFieldVisibility v =>
    cases b with
    | changeFieldVisibility v' => exact details_changeFieldVisibility
    | _ => exact absurd h (by simp [heading])
  | renameVariable declaration newName =>
    cases b with
    | renameVariable declaration' newName' => exact details_renameVariable
    | _ => exact absurd h (by simp [heading])
  | findMethods p =>
    cases b with
    | findMethods p' => exact details_findMethods ha hb
    | _ => exact absurd h (by simp [heading])
  | changeMethodName p newName =>
    cases b with
    | changeMethodName p' newName' => exact details_changeMethodName ha hb
    | _ => exact absurd h (by simp [heading])
  | changePackage m newPackage =>
    cases b with
    | changePackage m' newPackage' => exact details_changePackage
    | _ => exact absurd h (by simp [heading])
  | unwrapParentheses =>
    cases b with
    | unwrapParentheses => exact iff_of_true rfl trivial
    | _ => exact absurd h (by simp [heading])

theorem id_eq_iff_of_constructed {a b : StockRecipe} (ha : a.Constructed) (hb : b.Constructed) :
    a.recipe.id = b.recipe.id ↔ a.Alike b := by
  rw [id_eq_iff]
  by_cases h : a.heading = b.heading
  · rw [and_iff_right h, details_eq_iff ha hb h]
  · exact iff_of_false (fun hboth => h hboth.1) (not_alike_of_heading_ne h)

/-! ### Registration -/

/-- **What the ids of stock recipes tell apart.** Two stock recipes have one id if and only if they are alike:
of one family, with the same parameters but for those that the id does not show. So a pipeline refuses a stock
recipe as a duplicate if and only if one alike was offered before. -/
theorem id_eq_iff_alike {r : StockRecipe} (hr : r.Constructed) :
    (∀ a : StockRecipe, a.Constructed → (a.recipe.id = r.recipe.id ↔ a.Alike r)) ∧
      ∀ offered : List StockRecipe, (∀ a ∈ offered, a.Constructed) →
        ((Pipeline.registered (offered.map (·.recipe))).add r.recipe = .error (.duplicateRecipe r.recipe.id) ↔
          ∃ a ∈ offered, a.Alike r) := by
  refine ⟨fun a ha => id_eq_iff_of_constructed ha hr, fun offered hoffered => ?_⟩
  rw [Pipeline.add_registered_iff]
  constructor
  · rintro ⟨_, hmem, hid⟩
    obtain ⟨a, ha, rfl⟩ := List.mem_map.1 hmem
    exact ⟨a, ha, (id_eq_iff_of_constructed (hoffered a ha) hr).1 hid⟩
  · rintro ⟨a, ha, halike⟩
    exact ⟨a.recipe, List.mem_map_of_mem ha, (id_eq_iff_of_constructed (hoffered a ha) hr).2 halike⟩

/-- A method of a class, without parameters. -/
def plainMethod : String := "a.B f()"

/-- Finding the method and finding it with those that override it have two ids. Moving `a->b` to `c` and moving
`a` to `b->c` have one. -/
theorem id_eq_iff_alike_arrows : ∃ p, MethodPattern.compile plainMethod = .ok p ∧
    (findMethods p).recipe.id ≠ (findMethods (p.withOverrides true)).recipe.id ∧
    (Pipeline.registered ([changePackage ⟨"a->b", .recursive⟩ "c", findMethods p].map (·.recipe))).add
        (changePackage ⟨"a", .exactSegment⟩ "b->c").recipe =
      .error (.duplicateRecipe (changePackage ⟨"a", .exactSegment⟩ "b->c").recipe.id) := by
  have hok : (MethodPattern.compile plainMethod).isOk = true := by decide +kernel
  cases hp : MethodPattern.compile plainMethod with
  | error fault =>
    rw [hp] at hok
    cases hok
  | ok p =>
    have hcompiled (overrides : Bool) : (p.withOverrides overrides).Compiled := ⟨_, p, hp, overrides, rfl⟩
    have hplain : p.overrides = false := (MethodPattern.text_of_compile hp).2
    have hself : p.withOverrides false = p := by
      rw [← hplain]
      rfl
    have hconstructed : (findMethods p).Constructed := hself ▸ hcompiled false
    obtain ⟨hids, -⟩ := id_eq_iff_alike (r := findMethods (p.withOverrides true)) (hcompiled true)
    obtain ⟨-, hrefused⟩ := id_eq_iff_alike (r := changePackage ⟨"a", .exactSegment⟩ "b->c") trivial
    refine ⟨p, rfl, fun hid => ?_, (hrefused _ ?_).2 ⟨_, List.mem_cons_self, Or.inr (Or.inr ⟨"b", ?_, ?_⟩)⟩⟩
    · have hsame : p = p.withOverrides true := (hids (findMethods p) hconstructed).1 hid
      rw [hsame] at hplain
      cases hplain
    · simp only [List.forall_mem_cons, List.not_mem_nil, false_imp_iff, implies_true, and_true]
      exact ⟨trivial, hconstructed⟩
    · decide
    · decide

/-- A class and the one above it, which declares the method. -/
def inheritance : Hierarchy := .ofList [(ClassType.mk "a.Leaf" none [] []).extending "a.B",
  (ClassType.mk "a.B" none [] []).declaring "f" []]

/-- **An id does not tell whether overriding methods are renamed.** The two recipes differ on a method that
overrides the one of the pattern, and a pipeline that has the first refuses the second. -/
theorem id_hides_overrides : ∃ p, MethodPattern.compile plainMethod = .ok p ∧
    (p.matchesIn inheritance ⟨"a.Leaf", "f", [], none⟩).value = false ∧
    ((p.withOverrides true).matchesIn inheritance ⟨"a.Leaf", "f", [], none⟩).value = true ∧
    (Pipeline.registered [(changeMethodName p "g").recipe]).add (changeMethodName (p.withOverrides true) "g").recipe =
      .error (.duplicateRecipe "change-method-name:a.B f()->g") := by
  have hrun : (MethodPattern.compile plainMethod).toOption.map (fun p =>
      ((p.matchesIn inheritance ⟨"a.Leaf", "f", [], none⟩).value,
        ((p.withOverrides true).matchesIn inheritance ⟨"a.Leaf", "f", [], none⟩).value,
        (changeMethodName (p.withOverrides true) "g").recipe.id)) =
      some (false, true, "change-method-name:a.B f()->g") := by
    decide +kernel
  cases hp : MethodPattern.compile plainMethod with
  | error fault =>
    rw [hp] at hrun
    cases hrun
  | ok p =>
    rw [hp] at hrun
    obtain ⟨hmiss, hmatch⟩ := Prod.mk.inj (Option.some.inj hrun)
    obtain ⟨hmatch, hid⟩ := Prod.mk.inj hmatch
    refine ⟨p, rfl, hmiss, hmatch, ?_⟩
    rw [← hid]
    exact (Pipeline.add_registered_iff _ _).2 ⟨_, List.mem_singleton_self _, rfl⟩

end StockRecipe

end Refactor
