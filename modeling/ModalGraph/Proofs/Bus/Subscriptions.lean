import ModalGraph.Bus.Basic
import ModalGraph.Proofs.Bus.Memory

/-!
# The subscriptions of a topic

What handlers do to a bus changes the list of one topic at a time. On a bus whose lists have no cells in common (`Bus.Sound`) it
leaves the lists of other topics as they are, and also every list that was taken from the bus earlier (`Bus.Spares`): subscribing
writes at most behind it, and ending a subscription writes to a block of its own, since the list that is cut has no room.
-/

namespace ModalGraph

namespace Bus

variable {τ η : Type} [BEq τ]

/-- The subscriptions of a topic. -/
def contents (b : Bus τ η) (topic : τ) : List (Subscription η) :=
  b.memory.cells (b.list topic)

/-- A bus whose lists are written and have no cell in common. -/
structure Sound (b : Bus τ η) : Prop where
  fits : ∀ topic, b.memory.Fits (b.list topic)
  apart : ∀ topic other, topic ≠ other → (b.list topic).Apart (b.list other)

/-- What is done to the bus from now on writes nothing into the cells of a list. -/
structure Spares (b : Bus τ η) (v : Stretch) : Prop where
  fits : b.memory.Fits v
  spares : ∀ topic, (b.list topic).Spares v

theorem sound_empty : Sound (empty : Bus τ η) :=
  ⟨fun _ => Memory.Fits.nil _, fun _ _ _ => Stretch.nil_apart _⟩

variable {b : Bus τ η}

/-- On a sound bus the list of a topic is spared until the bus is changed, and by every change. -/
theorem Sound.spares_list (h : b.Sound) (topic : τ) : b.Spares (b.list topic) := by
  refine ⟨h.fits topic, fun other => ?_⟩
  by_cases heq : other = topic
  · rw [heq]
    exact fun _ => .inl (Nat.le_refl _)
  · exact (h.fits other).spares_of_apart (h.apart other topic heq)

theorem unsubscribe_last (b : Bus τ η) (grow : Nat → Nat → Nat) (t : Ticket τ) : (b.unsubscribe grow t).last = b.last := by
  unfold Bus.unsubscribe
  dsimp only
  split
  · rfl
  · split <;> rfl

theorem mem_used_unsubscribe (b : Bus τ η) (grow : Nat → Nat → Nat) (t : Ticket τ) (id : Nat) :
    id ∈ (b.unsubscribe grow t).used ↔ id = t.id ∨ id ∈ b.used := by
  unfold Bus.unsubscribe
  dsimp only
  split
  · rename_i hused
    exact ⟨.inr, fun h => h.elim (fun heq => heq ▸ List.contains_iff_mem.mp hused) fun h => h⟩
  · split <;> exact List.mem_cons

/-- Using a ticket again does nothing. -/
theorem unsubscribe_of_mem_used {b : Bus τ η} {t : Ticket τ} (h : t.id ∈ b.used) (grow : Nat → Nat → Nat) :
    b.unsubscribe grow t = b :=
  if_pos (List.contains_iff_mem.mpr h)

variable [LawfulBEq τ]

theorem list_setList_self (b : Bus τ η) (topic : τ) (s : Stretch) :
    (b.setList topic s).list topic = if s.length = 0 then .nil else s := by
  have hnone : (b.lists.filter fun e => e.1 != topic).lookup topic = none := by
    rw [List.lookup_eq_none_iff]
    intro e he
    exact bne_iff_ne.mpr (Ne.symm (bne_iff_ne.mp (List.mem_filter.mp he).2))
  rw [list, setList]
  dsimp only
  split
  · rw [hnone]
    rfl
  · rw [List.lookup_cons_self]
    rfl

theorem list_setList_ne (b : Bus τ η) {topic other : τ} (h : other ≠ topic) (s : Stretch) :
    (b.setList topic s).list other = b.list other := by
  have hkept : ∀ l : List (τ × Stretch), (l.filter fun e => e.1 != topic).lookup other = l.lookup other := by
    intro l
    induction l with
    | nil => rfl
    | cons e l ih =>
      by_cases he : e.1 = topic
      · rw [List.filter_cons_of_neg (by simpa using he), ih, List.lookup_cons, show (other == e.1) = false by simpa [he] using h]
      · rw [List.filter_cons_of_pos (by simpa using he), List.lookup_cons, List.lookup_cons, ih]
  rw [list, list, setList]
  dsimp only
  split
  · rw [hkept]
  · rw [List.lookup_cons, show (other == topic) = false by simpa using h, hkept]

/-- What a change does to a sound bus: it stays sound, a topic's subscriptions become others, those of other topics stay, and so do the
lists that are spared. -/
structure Changes (b b' : Bus τ η) (topic : τ) (after : List (Subscription η)) : Prop where
  sound : b'.Sound
  contents_self : b'.contents topic = after
  contents_ne : ∀ other, other ≠ topic → b'.contents other = b.contents other
  spared : ∀ v, b.Spares v → b'.Spares v ∧ b'.memory.cells v = b.memory.cells v

/-- A topic gets another list: one that is spared and apart as its own is, with more cells appended to it. -/
theorem Sound.replace (h : b.Sound) (grow : Nat → Nat → Nat) (topic : τ) {s : Stretch} (hfits : b.memory.Fits s)
    (hspares : ∀ v, (b.list topic).Spares v → s.Spares v) (hapart : ∀ v, (b.list topic).Apart v → s.Apart v)
    (xs : List (Subscription η)) (last : Nat) (used : List Nat) :
    Changes b (setList ⟨last, (b.memory.append grow s xs).1, b.lists, used⟩ topic (b.memory.append grow s xs).2) topic
      (b.memory.cells s ++ xs) := by
  have happend := Memory.append_grown grow hfits xs
  generalize b.memory.append grow s xs = appended at happend ⊢
  obtain ⟨m, s'⟩ := appended
  have hgrown : b.memory.Grown s xs m ((setList ⟨last, m, b.lists, used⟩ topic s').list topic) := by
    rw [list_setList_self]
    split
    · exact happend.nil ‹_›
    · exact happend
  have hother : ∀ other, other ≠ topic → (setList ⟨last, m, b.lists, used⟩ topic s').list other = b.list other :=
    fun other hne => list_setList_ne ⟨last, m, b.lists, used⟩ hne s'
  have hmemory : (setList ⟨last, m, b.lists, used⟩ topic s').memory = m := rfl
  dsimp only
  generalize setList ⟨last, m, b.lists, used⟩ topic s' = b' at hgrown hother hmemory ⊢
  subst hmemory
  have hkept : ∀ other, other ≠ topic →
      b'.memory.Fits (b.list other) ∧ b'.memory.cells (b.list other) = b.memory.cells (b.list other) := fun other hne =>
    hgrown.other _ (h.fits other) (hspares _ ((h.fits topic).spares_of_apart (h.apart topic other hne.symm)))
  have hnew : ∀ other, other ≠ topic → (b'.list topic).Apart (b.list other) := fun other hne =>
    hgrown.apart _ (h.fits other) (hapart _ (h.apart topic other hne.symm))
  refine ⟨⟨fun other => ?_, fun first second hne => ?_⟩, hgrown.cells, fun other hne => ?_, fun v hv => ?_⟩
  · by_cases heq : other = topic
    · rw [heq]
      exact hgrown.fits
    · rw [hother other heq]
      exact (hkept other heq).1
  · by_cases hfirst : first = topic
    · have hsecond : second ≠ topic := fun heq => hne (hfirst.trans heq.symm)
      rw [hfirst, hother second hsecond]
      exact hnew second hsecond
    · by_cases hsecond : second = topic
      · rw [hsecond, hother first hfirst]
        exact (hnew first hfirst).symm
      · rw [hother first hfirst, hother second hsecond]
        exact h.apart first second hne
  · rw [contents, hother other hne]
    exact (hkept other hne).2
  · have hsame := hgrown.other v hv.fits (hspares v (hv.spares topic))
    refine ⟨⟨hsame.1, fun other => ?_⟩, hsame.2⟩
    by_cases heq : other = topic
    · rw [heq]
      exact hgrown.spares v hv.fits (hspares v (hv.spares topic))
    · rw [hother other heq]
      exact hv.spares other

/-- Subscribing adds a subscription at the end. -/
theorem Sound.subscribe (h : b.Sound) (grow : Nat → Nat → Nat) (topic : τ) (handler : η) :
    Changes b (b.subscribe grow topic handler).1 topic (b.contents topic ++ [⟨b.last + 1, handler⟩]) :=
  h.replace grow topic (h.fits topic) (fun _ hv => hv) (fun _ hv => hv) [⟨b.last + 1, handler⟩] (b.last + 1) b.used

/-- Subscriptions without the one of a number, each number being there once. -/
theorem take_drop_eq_filter {l : List (Subscription η)} (hnodup : (l.map Subscription.id).Nodup) {id k : Nat}
    (hk : (l.findIdx? fun s => s.id == id) = some k) : l.take k ++ l.drop (k + 1) = l.filter fun s => s.id != id := by
  induction l generalizing k with
  | nil => cases hk
  | cons s l ih =>
    obtain ⟨hs, hnodup⟩ := List.nodup_cons.mp hnodup
    rw [List.findIdx?_cons] at hk
    by_cases heq : s.id = id
    · rw [if_pos (beq_iff_eq.mpr heq)] at hk
      cases hk
      rw [List.filter_cons_of_neg (by simp [heq]), List.take_zero, List.nil_append, List.drop_succ_cons, List.drop_zero, eq_comm,
        List.filter_eq_self]
      intro other hother
      have hne : other.id ≠ id := fun hid => hs (heq.trans hid.symm ▸ List.mem_map_of_mem hother)
      exact bne_iff_ne.mpr hne
    · rw [if_neg (by simpa using heq)] at hk
      obtain ⟨k', hk', rfl⟩ := Option.map_eq_some_iff.mp hk
      rw [List.filter_cons_of_pos (by simpa using heq), List.take_succ_cons, List.drop_succ_cons, List.cons_append, ih hnodup hk']

/-- Subscriptions without one that is not there. -/
theorem filter_id_eq_self {l : List (Subscription η)} {id : Nat} (h : ∀ s ∈ l, s.id ≠ id) : (l.filter fun s => s.id != id) = l :=
  List.filter_eq_self.mpr fun s hs => bne_iff_ne.mpr (h s hs)

/-- A ticket ends its own subscription, if it is there. -/
theorem Sound.unsubscribe (h : b.Sound) (grow : Nat → Nat → Nat) (t : Ticket τ)
    (hnodup : ((b.contents t.topic).map Subscription.id).Nodup) (hused : t.id ∈ b.used → ∀ s ∈ b.contents t.topic, s.id ≠ t.id) :
    Changes b (b.unsubscribe grow t) t.topic ((b.contents t.topic).filter fun s => s.id != t.id) := by
  unfold Bus.unsubscribe
  split
  · rename_i hcontains
    rw [filter_id_eq_self (hused (List.contains_iff_mem.mp hcontains))]
    exact ⟨h, rfl, fun _ _ => rfl, fun v hv => ⟨hv, rfl⟩⟩
  · dsimp only
    split
    · -- The list of the topic is put back as it is.
      rename_i hnone
      have habsent : ∀ s ∈ b.contents t.topic, s.id ≠ t.id := by
        intro s hs
        simpa using List.findIdx?_eq_none_iff.mp hnone s hs
      have hsame := h.replace grow t.topic (h.fits t.topic) (fun _ hv => hv) (fun _ hv => hv) [] b.last (t.id :: b.used)
      rw [Memory.append_nil grow (h.fits t.topic), List.append_nil] at hsame
      rwa [filter_id_eq_self habsent]
    · rename_i k hk
      have hlt : k < (b.contents t.topic).length := (List.findIdx?_eq_some_iff_getElem.mp hk).1
      have hle : k ≤ (b.list t.topic).length := by
        rw [contents, Memory.length_cells (h.fits t.topic)] at hlt
        exact Nat.le_of_lt hlt
      have hrest := h.replace grow t.topic ((h.fits t.topic).cut hle) (fun v _ => Stretch.cut_spares _ v k)
        (fun v hv => hv.cut hle) ((b.contents t.topic).drop (k + 1)) b.last (t.id :: b.used)
      rw [Memory.cells_cut hle] at hrest
      rw [← take_drop_eq_filter hnodup hk]
      exact hrest

end Bus

end ModalGraph
