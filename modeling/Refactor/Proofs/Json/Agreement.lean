import Mathlib.Data.List.Forall2
import Mathlib.Data.List.Sort
import Refactor.Json.Basic

/-!
# Values that agree

Two JSON values agree if they are the same but for the order of members, for members that a later one of the
same name hides and for the sign of zero, at any depth. Values agree exactly if they have one canonical form
(`canonical_eq_iff`): the canonical members of an object are strictly ordered by name, and what is found
there under a name is the canonical form of what the object has under it.
-/

namespace Refactor

namespace Number

/-- The bits of one of the two zeros of the doubles. -/
def IsZero (bits : UInt64) : Prop := bits = 0 ∨ bits.toNat = 0x8000000000000000

/-- The two are one number. -/
inductive Agrees : Number → Number → Prop
  | refl (n : Number) : Agrees n n
  | zeros {a b : UInt64} : IsZero a → IsZero b → Agrees (.float a) (.float b)

theorem canonical_float_of_isZero {bits : UInt64} (h : IsZero bits) : (float bits).canonical = .float 0 := by
  rcases h with rfl | h
  · rfl
  · rw [canonical, if_pos h]

theorem canonical_float_of_not_isZero {bits : UInt64} (h : ¬ IsZero bits) :
    (float bits).canonical = .float bits := by
  rw [canonical, if_neg fun hneg => h (Or.inr hneg)]

theorem canonical_eq_iff {a b : Number} : a.canonical = b.canonical ↔ a.Agrees b := by
  constructor
  · intro h
    cases a with
    | integer x =>
      cases b with
      | integer y =>
        obtain rfl : x = y := by simpa [canonical] using h
        exact .refl _
      | float y => cases h
    | float x =>
      cases b with
      | integer y => cases h
      | float y =>
        by_cases hx : IsZero x <;> by_cases hy : IsZero y
        · exact .zeros hx hy
        · rw [canonical_float_of_isZero hx, canonical_float_of_not_isZero hy] at h
          cases h
          exact absurd (Or.inl rfl) hy
        · rw [canonical_float_of_not_isZero hx, canonical_float_of_isZero hy] at h
          cases h
          exact absurd (Or.inl rfl) hx
        · rw [canonical_float_of_not_isZero hx, canonical_float_of_not_isZero hy] at h
          cases h
          exact .refl _
  · intro h
    cases h with
    | refl => rfl
    | zeros ha hb => rw [canonical_float_of_isZero ha, canonical_float_of_isZero hb]

end Number

namespace Json

/-- The two are one value. -/
inductive Agrees : Json → Json → Prop
  | null : Agrees .null .null
  | bool (b : Bool) : Agrees (.bool b) (.bool b)
  | number {a b : Number} : a.Agrees b → Agrees (.number a) (.number b)
  | string (s : String) : Agrees (.string s) (.string s)
  | array {as bs : List Json} : List.Forall₂ Agrees as bs → Agrees (.array as) (.array bs)
  /-- Under every name there is nothing in both, or values that agree. -/
  | object {as bs : List (String × Json)} :
      (∀ name, Option.Rel Agrees (get? name (.object as)) (get? name (.object bs))) →
      Agrees (.object as) (.object bs)

/-! ### Canonical members -/

/-- The members stand in the order of their names, and no name stands twice. -/
def Ordered (members : List (String × Json)) : Prop := members.Pairwise fun p q => p.1 < q.1

section Members

variable {name : String} {value : Json} {p : String × Json}

theorem mem_insertMember {members : List (String × Json)} (h : Ordered members) :
    p ∈ insertMember name value members ↔ p = (name, value) ∨ p ∈ members ∧ p.1 ≠ name := by
  induction members with
  | nil => simp [insertMember]
  | cons q rest ih =>
    obtain ⟨n, v⟩ := q
    obtain ⟨hafter, hrest⟩ := List.pairwise_cons.1 h
    have hne : ∀ m, m = n ∨ m < n → p ∈ rest → p.1 ≠ m := by
      rintro m hm hp rfl
      have hlt := hafter p hp
      rcases hm with heq | hm
      · exact String.lt_irrefl n (heq ▸ hlt)
      · exact String.lt_asymm hm hlt
    unfold insertMember
    by_cases heq : name = n
    · -- The member is replaced.
      subst heq
      rw [if_pos rfl]
      simp only [List.mem_cons]
      grind
    · rw [if_neg heq]
      by_cases hlt : name < n
      · rw [if_pos hlt]
        simp only [List.mem_cons]
        grind
      · rw [if_neg hlt]
        simp only [List.mem_cons, ih hrest]
        grind

theorem ordered_insertMember {members : List (String × Json)} (h : Ordered members) :
    Ordered (insertMember name value members) := by
  induction members with
  | nil => exact List.pairwise_singleton _ _
  | cons q rest ih =>
    obtain ⟨n, v⟩ := q
    obtain ⟨hafter, hrest⟩ := List.pairwise_cons.1 h
    unfold insertMember
    by_cases heq : name = n
    · rw [if_pos heq]
      exact List.pairwise_cons.2 ⟨heq ▸ hafter, hrest⟩
    · rw [if_neg heq]
      by_cases hbefore : name < n
      · rw [if_pos hbefore]
        refine List.pairwise_cons.2 ⟨List.forall_mem_cons.2 ⟨hbefore, fun p hp => ?_⟩, h⟩
        exact String.lt_trans hbefore (hafter p hp)
      · rw [if_neg hbefore]
        have hlt : n < name :=
          String.not_le.1 fun hle => heq (String.le_antisymm hle (String.not_lt.1 hbefore))
        refine List.pairwise_cons.2 ⟨fun p hp => ?_, ih hrest⟩
        rcases (mem_insertMember hrest).1 hp with rfl | ⟨hp, -⟩
        · exact hlt
        · exact hafter p hp

theorem get?_object_cons (k name : String) (j : Json) (rest : List (String × Json)) :
    get? k (.object ((name, j) :: rest)) =
      (get? k (.object rest)).or (if name = k then some j else none) := by
  unfold get?
  dsimp only
  rw [List.reverse_cons, List.find?_append, Option.map_or]
  congr 1
  by_cases h : name = k <;> simp [h]

/-- What stands in the end is the last of each name, and what stood before under no such name. -/
theorem mem_canonicalMembers (members : List (String × Json)) : ∀ {sorted : List (String × Json)},
    Ordered sorted → Ordered (canonicalMembers sorted members) ∧
      (p ∈ canonicalMembers sorted members ↔
        (get? p.1 (.object members)).map canonical = some p.2 ∨
          get? p.1 (.object members) = none ∧ p ∈ sorted) := by
  induction members with
  | nil =>
    intro sorted h
    exact ⟨by rwa [canonicalMembers], by simp [canonicalMembers, get?]⟩
  | cons q rest ih =>
    obtain ⟨name, j⟩ := q
    intro sorted h
    rw [canonicalMembers]
    obtain ⟨hordered, hmem⟩ := ih (ordered_insertMember h)
    refine ⟨hordered, hmem.trans ?_⟩
    rw [mem_insertMember h, get?_object_cons]
    -- Of two members of one name the later one counts, as it is inserted later.
    cases hrest : get? p.1 (.object rest) with
    | some k => simp
    | none =>
      obtain ⟨k, v⟩ := p
      by_cases hname : name = k
      · subst hname
        simp [eq_comm]
      · have hname : k ≠ name := Ne.symm hname
        simp [hname, hname.symm]

/-- An object's canonical members tell what it has under each name. -/
theorem canonicalMembers_eq_iff {as bs : List (String × Json)} :
    canonicalMembers [] as = canonicalMembers [] bs ↔
      ∀ name, (get? name (.object as)).map canonical = (get? name (.object bs)).map canonical := by
  have hmem : ∀ members : List (String × Json), ∀ p, p ∈ canonicalMembers [] members ↔
      (get? p.1 (.object members)).map canonical = some p.2 := by
    intro members p
    simpa using (mem_canonicalMembers members List.Pairwise.nil).2
  constructor
  · intro h name
    refine Option.ext fun v => ?_
    rw [← hmem as (name, v), h, hmem bs (name, v)]
  · intro h
    have : Std.Antisymm fun p q : String × Json => p.1 < q.1 :=
      ⟨fun p q hpq hqp => absurd hqp (String.lt_asymm hpq)⟩
    have : Std.Irrefl fun p q : String × Json => p.1 < q.1 := ⟨fun p => String.lt_irrefl p.1⟩
    have hordered : ∀ members : List (String × Json), Ordered (canonicalMembers [] members) :=
      fun members => (mem_canonicalMembers (p := default) members List.Pairwise.nil).1
    refine List.Pairwise.eq_of_mem_iff (hordered as) (hordered bs) fun p => ?_
    rw [hmem as p, hmem bs p, h]

end Members

/-! ### Agreement -/

theorem canonicalItems_eq_map (items : List Json) : canonicalItems items = items.map canonical := by
  induction items with
  | nil => rfl
  | cons j rest ih => rw [canonicalItems, ih, List.map_cons]

theorem sizeOf_lt_of_get? {name : String} {members : List (String × Json)} {j : Json}
    (h : get? name (.object members) = some j) : sizeOf j < sizeOf members := by
  obtain ⟨p, hp, rfl⟩ := Option.map_eq_some_iff.1 h
  have hmem : p ∈ members := List.mem_reverse.1 (List.mem_of_find?_eq_some hp)
  have hlt := List.sizeOf_lt_of_mem hmem
  obtain ⟨n, v⟩ := p
  simp only [Prod.mk.sizeOf_spec] at hlt
  dsimp only
  omega

section Parts

variable {as bs : List Json} {x y : Option Json}

theorem map_canonical_items_iff (h : ∀ a ∈ as, ∀ b, a.canonical = b.canonical ↔ a.Agrees b) :
    as.map canonical = bs.map canonical ↔ List.Forall₂ Agrees as bs := by
  rw [← List.forall₂_eq_eq_eq, List.forall₂_map_left_iff, List.forall₂_map_right_iff]
  induction as generalizing bs with
  | nil => simp
  | cons a as ih =>
    obtain ⟨ha, has⟩ := List.forall_mem_cons.1 h
    cases bs with
    | nil => simp
    | cons b bs => rw [List.forall₂_cons, List.forall₂_cons, ha, ih has]

theorem map_canonical_member_iff (h : ∀ a, x = some a → ∀ b, a.canonical = b.canonical ↔ a.Agrees b) :
    x.map canonical = y.map canonical ↔ Option.Rel Agrees x y := by
  cases x with
  | none =>
    cases y with
    | none => exact ⟨fun _ => .none, fun _ => rfl⟩
    | some b => exact ⟨nofun, nofun⟩
  | some a =>
    cases y with
    | none => exact ⟨nofun, nofun⟩
    | some b =>
      rw [Option.map_some, Option.map_some, Option.some.injEq, h a rfl b]
      exact ⟨.some, fun hrel => by cases hrel; assumption⟩

end Parts

/-- **Values agree exactly if they have one canonical form.** The induction is on the size of the first, as
items and members stand in lists. -/
theorem canonical_eq_iff (a b : Json) : a.canonical = b.canonical ↔ a.Agrees b := by
  cases a with
  | null =>
    cases b with
    | null => exact ⟨fun _ => .null, fun _ => rfl⟩
    | _ => exact ⟨nofun, nofun⟩
  | bool x =>
    cases b with
    | bool y =>
      rw [canonical, canonical]
      exact ⟨by rintro ⟨⟩; exact .bool x, by rintro ⟨⟩; rfl⟩
    | _ => exact ⟨nofun, nofun⟩
  | number x =>
    cases b with
    | number y =>
      rw [canonical, canonical, number.injEq, Number.canonical_eq_iff]
      exact ⟨.number, by rintro ⟨⟩; assumption⟩
    | _ => exact ⟨nofun, nofun⟩
  | string x =>
    cases b with
    | string y =>
      rw [canonical, canonical]
      exact ⟨by rintro ⟨⟩; exact .string x, by rintro ⟨⟩; rfl⟩
    | _ => exact ⟨nofun, nofun⟩
  | array as =>
    cases b with
    | array bs =>
      have hitems : as.map canonical = bs.map canonical ↔ List.Forall₂ Agrees as bs :=
        map_canonical_items_iff fun a ha b =>
          have : sizeOf a < sizeOf as := List.sizeOf_lt_of_mem ha
          canonical_eq_iff a b
      rw [canonical, canonical, array.injEq, canonicalItems_eq_map, canonicalItems_eq_map, hitems]
      exact ⟨.array, by rintro ⟨⟩; assumption⟩
    | _ => exact ⟨nofun, nofun⟩
  | object as =>
    cases b with
    | object bs =>
      have hmembers : ∀ name, (get? name (.object as)).map canonical = (get? name (.object bs)).map canonical ↔
          Option.Rel Agrees (get? name (.object as)) (get? name (.object bs)) := fun name =>
        map_canonical_member_iff fun a ha b =>
          have : sizeOf a < sizeOf as := sizeOf_lt_of_get? ha
          canonical_eq_iff a b
      rw [canonical, canonical, object.injEq, canonicalMembers_eq_iff, forall_congr' hmembers]
      exact ⟨.object, by rintro ⟨⟩; assumption⟩
    | _ => exact ⟨nofun, nofun⟩
termination_by sizeOf a

end Json

end Refactor
