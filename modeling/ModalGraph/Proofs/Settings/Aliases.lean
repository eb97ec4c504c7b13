import Mathlib.Data.List.Nodup
import Mathlib.Data.List.Perm.Basic
import ModalGraph.Proofs.Step
import ModalGraph.Proofs.Text.Order
import ModalGraph.Settings.File

/-!
# The order of aliases

Aliases are declared by blocks of each family and made in the order of the families, then of the names (`SettingsFile.arranged`). The sort
keeps the order of the file among aliases of one name, so the families may be visited in any order, and blocks that declare different
names may be permuted: the aliases are the same, and making them gives the same registries or the same complaints
(`SettingsFile.aliases_arranged`).

A list sorted by a total order is known once its tied elements are known in their order (`eq_of_ties`); the sort keeps these
(`filter_mergeSort`).
-/

namespace ModalGraph.SettingsFile

open SettingsText

/-! ## Blocks -/

/-- What the alias blocks of each family declare: names and keys, in the order of the file. -/
abbrev Blocks := Role → List (Bytes × Bytes)

/-- The aliases of the blocks of one family. -/
def Blocks.aliases (blocks : Blocks) (r : Role) : List Alias :=
  (blocks r).map fun b => ⟨r, b.1, b.2⟩

/-- The aliases of all blocks in the order in which they are made, if the families are visited in some order. -/
def arranged (visited : List Role) (blocks : Blocks) : List Alias :=
  (visited.flatMap blocks.aliases).mergeSort aliasLe

/-- The families in their order. -/
def families : List Role :=
  [.psi, .sigma, .phi]

/-- The alias blocks of a text. -/
def Declares (text : String) (blocks : Blocks) : Prop :=
  ∃ body, parse? text = some body ∧ ∀ r, aliasBlocks? body r = some (blocks.aliases r)

/-- No family declares a name twice. -/
def Blocks.Distinct (blocks : Blocks) : Prop :=
  ∀ r, ((blocks r).map Prod.fst).Nodup

/-- The same blocks in each family, in any order. -/
def Blocks.Permutes (blocks blocks' : Blocks) : Prop :=
  ∀ r, (blocks r).Perm (blocks' r)

/-- Not after another alias: of an earlier family, or of the same one and with a name that is not after the other. -/
def InOrder (a b : Alias) : Prop :=
  roleRank a.role < roleRank b.role ∨ (a.role = b.role ∧ Bytes.le a.name b.name = true)

/-- An alias of a name of a family. -/
def isAliasOf (r : Role) (name : Bytes) (a : Alias) : Bool :=
  a.role == r && a.name == name

namespace AliasesAux

/-! ## Sorted lists -/

section

variable {α : Type} {le : α → α → Bool} (trans : ∀ a b c, le a b = true → le b c = true → le a c = true)
  (total : ∀ a b, (le a b || le b a) = true)

include trans total in
/-- Sorting keeps elements that are tied in their order. -/
theorem filter_mergeSort {p : α → Bool} (hp : ∀ a b, p a = true → p b = true → le a b = true) (l : List α) :
    (l.mergeSort le).filter p = l.filter p := by
  have htied : (l.filter p).Pairwise fun a b => le a b = true :=
    List.pairwise_of_forall_mem_list fun a ha b hb => hp a b (List.mem_filter.mp ha).2 (List.mem_filter.mp hb).2
  have hsub : (l.filter p).Sublist ((l.mergeSort le).filter p) := by
    have h := (List.sublist_mergeSort trans total htied List.filter_sublist).filter p
    rwa [List.filter_filter, show (fun a => p a && p a) = p from funext fun a => Bool.and_self (p a)] at h
  exact (hsub.eq_of_length ((List.mergeSort_perm l le).filter p).length_eq.symm).symm

/-- Elements of which neither is after the other. -/
def tied (le : α → α → Bool) (a b : α) : Bool :=
  le a b && le b a

include total in
theorem tied_self (a : α) : tied le a a = true := by
  have h := total a a
  rw [Bool.or_self] at h
  rw [tied, h, Bool.and_self]

include total in
/-- The first element of a sorted list is not after an element that is tied with an element of the list. -/
theorem le_of_mem_filter {a b : α} {l : List α} (h : (b :: l).Pairwise fun a b => le a b = true)
    (ha : a ∈ (b :: l).filter (tied le a)) : le b a = true := by
  rcases List.mem_cons.mp (List.mem_filter.mp ha).1 with rfl | hmem
  · exact (Bool.and_eq_true_iff.mp (tied_self total a)).1
  · exact (List.pairwise_cons.mp h).1 a hmem

include total in
/-- Two sorted lists are equal if they have the same elements tied with each element, in the same order. -/
theorem eq_of_tied {l₁ l₂ : List α} (h₁ : l₁.Pairwise fun a b => le a b = true) (h₂ : l₂.Pairwise fun a b => le a b = true)
    (h : ∀ a, l₁.filter (tied le a) = l₂.filter (tied le a)) : l₁ = l₂ := by
  have hself : ∀ (a : α) (l : List α), a ∈ (a :: l).filter (tied le a) := fun a l =>
    List.mem_filter.mpr ⟨List.mem_cons_self, tied_self total a⟩
  induction l₁ generalizing l₂ with
  | nil =>
    cases l₂ with
    | nil => rfl
    | cons b l₂ => exact absurd (h b ▸ hself b l₂) List.not_mem_nil
  | cons a l₁ ih =>
    cases l₂ with
    | nil => exact absurd (h a ▸ hself a l₁) List.not_mem_nil
    | cons b l₂ =>
      -- The heads are tied with each other, so each of them is the first of the elements tied with it.
      have hba : le b a = true := le_of_mem_filter total h₂ (h a ▸ hself a l₁)
      have hab : le a b = true := le_of_mem_filter total h₁ ((h b).symm ▸ hself b l₂)
      have hheads := h a
      rw [List.filter_cons_of_pos (tied_self total a), List.filter_cons_of_pos (by rw [tied, hab, hba, Bool.and_self])] at hheads
      obtain rfl := (List.cons.inj hheads).1
      refine congrArg _ (ih (List.pairwise_cons.mp h₁).2 (List.pairwise_cons.mp h₂).2 fun c => ?_)
      have hc := h c
      cases htie : tied le c a with
      | true =>
        rw [List.filter_cons_of_pos htie, List.filter_cons_of_pos htie] at hc
        exact (List.cons.inj hc).2
      | false => rwa [List.filter_cons_of_neg (by simp [htie]), List.filter_cons_of_neg (by simp [htie])] at hc

end

/-! ## The order of aliases -/

theorem aliasLe_iff (a b : Alias) : aliasLe a b = true ↔ InOrder a b := by
  simp [aliasLe, InOrder]

theorem roleRank_injective {r s : Role} (h : roleRank r = roleRank s) : r = s := by
  cases r <;> cases s <;> first | rfl | cases h

theorem aliasLe_trans (a b c : Alias) (hab : aliasLe a b = true) (hbc : aliasLe b c = true) : aliasLe a c = true := by
  rw [aliasLe_iff] at hab hbc ⊢
  rcases hab with hab | ⟨hab, hab'⟩
  · rcases hbc with hbc | ⟨hbc, -⟩
    · exact .inl (Nat.lt_trans hab hbc)
    · exact .inl (hbc ▸ hab)
  · rcases hbc with hbc | ⟨hbc, hbc'⟩
    · exact .inl (hab ▸ hbc)
    · exact .inr ⟨hab.trans hbc, Bytes.le_trans hab' hbc'⟩

theorem aliasLe_total (a b : Alias) : (aliasLe a b || aliasLe b a) = true := by
  rw [Bool.or_eq_true, aliasLe_iff, aliasLe_iff]
  rcases Nat.lt_trichotomy (roleRank a.role) (roleRank b.role) with h | h | h
  · exact .inl (.inl h)
  · have hrole := roleRank_injective h
    rcases Bool.or_eq_true_iff.mp (Bytes.le_or_le a.name b.name) with hle | hle
    · exact .inl (.inr ⟨hrole, hle⟩)
    · exact .inr (.inr ⟨hrole.symm, hle⟩)
  · exact .inr (.inl h)

/-- Aliases are tied if they are of one name of one family. -/
theorem tied_aliasLe (a b : Alias) : tied aliasLe a b = isAliasOf a.role a.name b := by
  rw [Bool.eq_iff_iff, tied, Bool.and_eq_true, aliasLe_iff, aliasLe_iff, isAliasOf, Bool.and_eq_true, beq_iff_eq, beq_iff_eq]
  constructor
  · rintro ⟨hab | ⟨hab, hab'⟩, hba | ⟨hba, hba'⟩⟩
    · exact absurd hab (Nat.lt_asymm hba)
    · exact absurd hab (by rw [hba]; exact Nat.lt_irrefl _)
    · exact absurd hba (by rw [hab]; exact Nat.lt_irrefl _)
    · exact ⟨hba, Bytes.le_antisymm hba' hab'⟩
  · rintro ⟨hrole, hname⟩
    have hle : Bytes.le a.name a.name = true := by simpa using Bytes.le_or_le a.name a.name
    exact ⟨.inr ⟨hrole.symm, hname ▸ hle⟩, .inr ⟨hrole, hname ▸ hle⟩⟩

theorem le_of_isAliasOf {r : Role} {name : Bytes} {a b : Alias} (ha : isAliasOf r name a = true) (hb : isAliasOf r name b = true) :
    aliasLe a b = true := by
  simp only [isAliasOf, Bool.and_eq_true, beq_iff_eq] at ha hb
  have htied : tied aliasLe a b = true := by
    rw [tied_aliasLe, isAliasOf, hb.1, hb.2, ha.1, ha.2, beq_self_eq_true, beq_self_eq_true, Bool.and_self]
  exact (Bool.and_eq_true_iff.mp htied).1

/-! ## Aliases from blocks -/

theorem role_of_mem {blocks : Blocks} {r : Role} {a : Alias} (h : a ∈ blocks.aliases r) : a.role = r := by
  obtain ⟨b, -, rfl⟩ := List.mem_map.mp h
  rfl

theorem filter_aliases_other {blocks : Blocks} {r s : Role} (h : r ≠ s) (name : Bytes) :
    (blocks.aliases r).filter (isAliasOf s name) = [] := by
  refine List.filter_eq_nil_iff.mpr fun a ha => ?_
  have hrole : (a.role == s) = false := beq_false_of_ne (role_of_mem ha ▸ h)
  rw [isAliasOf, hrole]
  simp

/-- Families other than one have no aliases of its names. -/
theorem filter_flatMap_other {blocks : Blocks} {r : Role} {rs : List Role} (h : r ∉ rs) (name : Bytes) :
    (rs.flatMap blocks.aliases).filter (isAliasOf r name) = [] := by
  rw [List.filter_flatMap]
  refine List.flatMap_eq_nil_iff.mpr fun s hs => filter_aliases_other ?_ name
  rintro rfl
  exact h hs

/-- The aliases of one name are those of its family, wherever that is visited. -/
theorem filter_flatMap {blocks : Blocks} {visited : List Role} (h : visited.Perm families) (r : Role) (name : Bytes) :
    (visited.flatMap blocks.aliases).filter (isAliasOf r name) = (blocks.aliases r).filter (isAliasOf r name) := by
  have hmem : r ∈ visited := h.mem_iff.mpr (by cases r <;> decide)
  have hnodup : visited.Nodup := h.nodup_iff.mpr (by decide)
  obtain ⟨before, after, rfl⟩ := List.append_of_mem hmem
  obtain ⟨-, hafter, hbefore⟩ := List.nodup_append.mp hnodup
  have hr : r ∉ before := fun hr => hbefore r hr r List.mem_cons_self rfl
  rw [List.flatMap_append, List.flatMap_cons, List.filter_append, List.filter_append, filter_flatMap_other hr,
    filter_flatMap_other (List.nodup_cons.mp hafter).1, List.nil_append, List.append_nil]

/-- What is arranged is in order. -/
theorem arranged_inOrder (visited : List Role) (blocks : Blocks) : (arranged visited blocks).Pairwise InOrder :=
  (List.pairwise_mergeSort aliasLe_trans aliasLe_total _).imp fun h => (aliasLe_iff _ _).mp h

/-- Aliases of one name are arranged in the order of the file. -/
theorem filter_arranged {blocks : Blocks} {visited : List Role} (h : visited.Perm families) (r : Role) (name : Bytes) :
    (arranged visited blocks).filter (isAliasOf r name) = (blocks.aliases r).filter (isAliasOf r name) := by
  rw [arranged, filter_mergeSort aliasLe_trans aliasLe_total fun a b => le_of_isAliasOf, filter_flatMap h]

/-- The families may be visited in any order. -/
theorem arranged_visited {blocks : Blocks} {visited : List Role} (h : visited.Perm families) :
    arranged visited blocks = arranged families blocks := by
  refine eq_of_tied aliasLe_total (List.pairwise_mergeSort aliasLe_trans aliasLe_total _)
    (List.pairwise_mergeSort aliasLe_trans aliasLe_total _) fun a => ?_
  rw [show tied aliasLe a = isAliasOf a.role a.name from funext (tied_aliasLe a)]
  exact (filter_arranged h _ _).trans (filter_arranged (.refl _) _ _).symm

/-- Two aliases of one name are the same if no name is declared twice. -/
theorem eq_of_tied_distinct {blocks : Blocks} (hdistinct : blocks.Distinct) {a b : Alias} (ha : a ∈ families.flatMap blocks.aliases)
    (hb : b ∈ families.flatMap blocks.aliases) (htied : tied aliasLe a b = true) : a = b := by
  rw [tied_aliasLe, isAliasOf, Bool.and_eq_true, beq_iff_eq, beq_iff_eq] at htied
  obtain ⟨r, -, ha⟩ := List.mem_flatMap.mp ha
  obtain ⟨s, -, hb⟩ := List.mem_flatMap.mp hb
  obtain ⟨p, hp, rfl⟩ := List.mem_map.mp ha
  obtain ⟨q, hq, rfl⟩ := List.mem_map.mp hb
  obtain ⟨rfl, hname⟩ := htied
  obtain rfl := List.inj_on_of_nodup_map (hdistinct _) hq hp hname
  rfl

/-- Blocks of different names may be permuted. -/
theorem arranged_permutes {blocks blocks' : Blocks} (hdistinct : blocks.Distinct) (h : blocks.Permutes blocks') :
    arranged families blocks = arranged families blocks' := by
  have hperm : (families.flatMap blocks.aliases).Perm (families.flatMap blocks'.aliases) :=
    List.Perm.flatMap_left _ fun r _ => (h r).map _
  refine List.Perm.eq_of_pairwise ?_ (List.pairwise_mergeSort aliasLe_trans aliasLe_total _)
    (List.pairwise_mergeSort aliasLe_trans aliasLe_total _)
    (((List.mergeSort_perm _ _).trans hperm).trans (List.mergeSort_perm _ _).symm)
  intro a b ha hb hab hba
  have ha := List.mem_mergeSort.mp ha
  have hb := hperm.mem_iff.mpr (List.mem_mergeSort.mp hb)
  exact eq_of_tied_distinct hdistinct ha hb (by rw [tied, hab, hba, Bool.and_self])

/-! ## Aliases from texts -/

theorem aliasBlock?_role {r : Role} {b : List String × List Item} {a : Alias} (h : aliasBlock? r b = some a) : a.role = r := by
  unfold aliasBlock? at h
  split at h
  · split at h
    · obtain ⟨t, -, h⟩ := Option.bind_eq_some_iff.mp h
      obtain ⟨use, -, h⟩ := Option.bind_eq_some_iff.mp h
      obtain rfl := Option.some.inj h
      rfl
    · cases h
  · cases h

/-- What is read from the blocks of a family are aliases of it. -/
theorem role_of_aliasBlocks? {body : List Item} {r : Role} {as : List Alias} (h : aliasBlocks? body r = some as) :
    ∀ a ∈ as, a.role = r := by
  unfold aliasBlocks? at h
  generalize blocks body r.name = bs at h
  induction bs generalizing as with
  | nil =>
    obtain rfl := Option.some.inj h
    exact nofun
  | cons b bs ih =>
    rw [List.mapM_cons] at h
    obtain ⟨a, ha, h⟩ := Option.bind_eq_some_iff.mp h
    obtain ⟨rest, hrest, h⟩ := Option.bind_eq_some_iff.mp h
    obtain rfl := Option.some.inj h
    exact List.forall_mem_cons.mpr ⟨aliasBlock?_role ha, ih hrest⟩

/-- What each family has. -/
def ofFamilies (psi sigma phi : List Alias) : Role → List Alias
  | .psi => psi
  | .sigma => sigma
  | .phi => phi

/-- The aliases of a draft are those of the three families. -/
theorem aliases_of_draft? {body : List Item} {d : Draft} (h : draft? body = some d) :
    ∃ as : Role → List Alias, (∀ r, aliasBlocks? body r = some (as r)) ∧ d.aliases = families.flatMap as := by
  unfold draft? at h
  split at h
  · obtain ⟨_, -, h⟩ := Option.bind_eq_some_iff.mp h
    obtain ⟨_, -, h⟩ := Option.bind_eq_some_iff.mp h
    obtain ⟨_, -, h⟩ := Option.bind_eq_some_iff.mp h
    obtain ⟨_, -, h⟩ := Option.bind_eq_some_iff.mp h
    obtain ⟨_, -, h⟩ := Option.bind_eq_some_iff.mp h
    obtain ⟨_, -, h⟩ := Option.bind_eq_some_iff.mp h
    obtain ⟨psi, hpsi, h⟩ := Option.bind_eq_some_iff.mp h
    obtain ⟨sigma, hsigma, h⟩ := Option.bind_eq_some_iff.mp h
    obtain ⟨phi, hphi, h⟩ := Option.bind_eq_some_iff.mp h
    obtain rfl := Option.some.inj h
    refine ⟨ofFamilies psi sigma phi, fun r => ?_, ?_⟩
    · cases r
      · exact hpsi
      · exact hsigma
      · exact hphi
    · simp [families, ofFamilies]
  · cases h

/-- The aliases of a file are arranged from the blocks of its text. -/
theorem aliases_of_parse {fileName text : String} {f : SettingsFile} (h : parse fileName text = .ok f) :
    ∃ blocks, Declares text blocks ∧ f.aliases = arranged families blocks := by
  unfold parse at h
  split at h
  · cases h
  · rename_i body hbody
    split at h
    · cases h
    · rename_i d hd
      obtain ⟨as, has, haliases⟩ := aliases_of_draft? hd
      have hblocks : ∀ r, Blocks.aliases (fun r => (as r).map fun a => (a.name, a.use)) r = as r := by
        intro r
        rw [Blocks.aliases, List.map_map]
        refine (List.map_congr_left fun a ha => ?_).trans (List.map_id _)
        rw [← role_of_aliasBlocks? (has r) a ha]
        rfl
      refine ⟨fun r => (as r).map fun a => (a.name, a.use), ⟨body, hbody, fun r => by rw [hblocks, has]⟩, ?_⟩
      dsimp only at h
      split at h
      · cases h
      · obtain rfl := Except.ok.inj h
        rw [arranged, funext hblocks, ← haliases]

/-- What a text declares can be read off family by family. -/
theorem declares_of_read {text : String} {blocks : Blocks}
    (h : (parse? text).map (fun body => families.map (aliasBlocks? body)) = some (families.map fun r => some (blocks.aliases r))) :
    Declares text blocks := by
  obtain ⟨body, hbody, hread⟩ := Option.map_eq_some_iff.mp h
  exact ⟨body, hbody, fun r => List.map_inj_left.mp hread r (by cases r <;> decide)⟩

/-- A text declares the same aliases however its blocks are given. -/
theorem arranged_of_declares {text : String} {blocks blocks' : Blocks} (h : Declares text blocks) (h' : Declares text blocks')
    (visited : List Role) : arranged visited blocks = arranged visited blocks' := by
  obtain ⟨body, hbody, hblocks⟩ := h
  obtain ⟨body', hbody', hblocks'⟩ := h'
  obtain rfl := Option.some.inj (hbody.symm.trans hbody')
  have heq : blocks.aliases = blocks'.aliases := funext fun r => Option.some.inj ((hblocks r).symm.trans (hblocks' r))
  rw [arranged, arranged, heq]

end AliasesAux

open AliasesAux

/-- Whatever alias blocks there are, and in whatever order their families are visited, their aliases come in one order: by family, then by
name, those of one name as in the file. This is how the aliases of every file that is read are ordered. If no family declares a name
twice, blocks that are permuted give the same aliases; so files that differ in the order of such blocks, made into registries from any
start, give the same registries and the same complaints in the same order. -/
theorem aliases_arranged :
    (∀ (blocks : Blocks) (visited : List Role), visited.Perm families →
      arranged visited blocks = arranged families blocks ∧ (arranged visited blocks).Perm (visited.flatMap blocks.aliases) ∧
        (arranged visited blocks).Pairwise InOrder ∧
        ∀ r name, (arranged visited blocks).filter (isAliasOf r name) = (blocks.aliases r).filter (isAliasOf r name)) ∧
    (∀ blocks blocks' : Blocks, blocks.Distinct → blocks.Permutes blocks' → arranged families blocks = arranged families blocks') ∧
    (∀ fileName text f, parse fileName text = .ok f →
      ∃ blocks, Declares text blocks ∧ ∀ visited : List Role, visited.Perm families → f.aliases = arranged visited blocks) ∧
    ∀ fileName text f fileName' text' f', parse fileName text = .ok f → parse fileName' text' = .ok f' →
      ∀ blocks blocks', Declares text blocks → Declares text' blocks' → blocks.Distinct → blocks.Permutes blocks' →
        f.aliases = f'.aliases ∧ (∀ start, f.aliases.foldl addAlias start = f'.aliases.foldl addAlias start) ∧
          f.registries = f'.registries := by
  have hfile : ∀ {fileName text f blocks}, parse fileName text = .ok f → Declares text blocks → f.aliases = arranged families blocks := by
    intro fileName text f blocks hf hblocks
    obtain ⟨blocks', hblocks', haliases⟩ := aliases_of_parse hf
    rw [haliases, arranged_of_declares hblocks' hblocks]
  refine ⟨fun blocks visited h => ?_, fun _ _ => arranged_permutes, fun fileName text f hf => ?_, ?_⟩
  · exact ⟨arranged_visited h, List.mergeSort_perm _ _, arranged_inOrder _ _, filter_arranged h⟩
  · obtain ⟨blocks, hblocks, haliases⟩ := aliases_of_parse hf
    exact ⟨blocks, hblocks, fun visited h => haliases.trans (arranged_visited h).symm⟩
  · intro fileName text f fileName' text' f' hf hf' blocks blocks' hblocks hblocks' hdistinct hperm
    have haliases : f.aliases = f'.aliases := by
      rw [hfile hf hblocks, hfile hf' hblocks', arranged_permutes hdistinct hperm]
    exact ⟨haliases, fun start => by rw [haliases], by rw [registries, registries, haliases]⟩

namespace Sample

/-- Two psi that are named by each other's names, and a sigma. -/
def crossed : Blocks
  | .psi => [(Bytes.ofString "b", Bytes.ofString "a"), (Bytes.ofString "a", Bytes.ofString "b")]
  | .sigma => [(Bytes.ofString "all", Bytes.ofString "and")]
  | .phi => []

/-- The same with the psi the other way round. -/
def turned : Blocks
  | .psi => [(Bytes.ofString "a", Bytes.ofString "b"), (Bytes.ofString "b", Bytes.ofString "a")]
  | .sigma => [(Bytes.ofString "all", Bytes.ofString "and")]
  | .phi => []

theorem crossed_distinct : crossed.Distinct := by
  intro r
  cases r <;> decide +kernel

theorem crossed_permutes : crossed.Permutes turned := by
  intro r
  cases r with
  | psi => exact List.Perm.swap _ _ []
  | sigma | phi => exact List.Perm.refl _

/-- A file with these blocks, the sigma between the psi. -/
def crossedText : String :=
  "node \x7b\x7d\npsi \"b\" \x7b use = \"a\" \x7d\nsigma \"all\" \x7b use = \"and\" \x7d\npsi \"a\" \x7b use = \"b\" \x7d\n"

/-- A file with the psi the other way round. -/
def turnedText : String :=
  "node \x7b\x7d\npsi \"a\" \x7b use = \"b\" \x7d\npsi \"b\" \x7b use = \"a\" \x7d\nsigma \"all\" \x7b use = \"and\" \x7d\n"

theorem crossedText_declares : Declares crossedText crossed :=
  declares_of_read (by decide +kernel)

theorem turnedText_declares : Declares turnedText turned :=
  declares_of_read (by decide +kernel)

end Sample

/-- The psi come by name and before the sigma, whether the families are visited in their order or the other way round, and whichever block
comes first, in two files as well. -/
theorem aliases_arranged_sample :
    arranged families Sample.crossed = [⟨.psi, Bytes.ofString "a", Bytes.ofString "b"⟩, ⟨.psi, Bytes.ofString "b", Bytes.ofString "a"⟩,
      ⟨.sigma, Bytes.ofString "all", Bytes.ofString "and"⟩] ∧
    arranged [.phi, .sigma, .psi] Sample.crossed = arranged families Sample.crossed ∧
    arranged families Sample.crossed = arranged families Sample.turned ∧
    ∃ f f' blocks, parse "crossed.hcl" Sample.crossedText = .ok f ∧ parse "turned.hcl" Sample.turnedText = .ok f' ∧
      Declares Sample.crossedText blocks ∧ f.aliases = arranged [.phi, .sigma, .psi] blocks ∧ f.aliases = f'.aliases ∧
      f.registries = f'.registries := by
  obtain ⟨hvisited, hpermuted, hfile, hfiles⟩ := aliases_arranged
  have hreverse : [Role.phi, .sigma, .psi].Perm families := List.reverse_perm families
  have hturned : arranged families Sample.crossed = arranged families Sample.turned :=
    hpermuted _ _ Sample.crossed_distinct Sample.crossed_permutes
  obtain ⟨f, hf⟩ : ∃ f, parse "crossed.hcl" Sample.crossedText = .ok f := exists_of_isOk (by decide +kernel)
  obtain ⟨f', hf'⟩ : ∃ f', parse "turned.hcl" Sample.turnedText = .ok f' := exists_of_isOk (by decide +kernel)
  obtain ⟨blocks, hblocks, haliases⟩ := hfile _ _ f hf
  obtain ⟨hsame, -, hregistries⟩ := hfiles _ _ f _ _ f' hf hf' _ _ Sample.crossedText_declares Sample.turnedText_declares
    Sample.crossed_distinct Sample.crossed_permutes
  refine ⟨?_, (hvisited Sample.crossed _ hreverse).1, hturned, f, f', blocks, hf, hf', hblocks, haliases _ hreverse, hsame, hregistries⟩
  rw [hturned]
  exact List.mergeSort_of_pairwise (by decide +kernel)

end ModalGraph.SettingsFile
