import Mathlib.Data.Tree.Basic
import Mathlib.Data.List.Nodup

/-!
# Search trees with external keys

A binary tree of node identifiers that is searched by a probe: the probe of a
node says whether the sought point lies before it, after it or inside it. The
keys stay outside the tree, so a node may change its key in place. Rebalancing
is a parameter of which only the effect on the in-order sequence is known.
-/

namespace SearchTree

variable {κ : Type*}

/-- The nodes of a tree from left to right. -/
def inorder : BinaryTree κ → List κ
  | .nil => []
  | .node k l r => inorder l ++ k :: inorder r

@[simp] theorem inorder_nil : inorder (.nil : BinaryTree κ) = [] := rfl

@[simp] theorem inorder_node (k : κ) (l r : BinaryTree κ) :
    inorder (.node k l r) = inorder l ++ k :: inorder r := rfl

/-- Walk down from the root as the probe directs; the result is the node that
contains the point, or else the last node visited. -/
def descend (probe : κ → Ordering) : BinaryTree κ → Option κ
  | .nil => none
  | .node k l r =>
      match probe k with
      | .lt => (descend probe l).or (some k)
      | .gt => (descend probe r).or (some k)
      | .eq => some k

/-- Link a new leaf where the probe falls off the tree, unless the walk meets a
node that contains the point. -/
def link (probe : κ → Ordering) (new : κ) : BinaryTree κ → Option (BinaryTree κ)
  | .nil => some (.node new .nil .nil)
  | .node k l r =>
      match probe k with
      | .lt => (link probe new l).map fun l' => .node k l' r
      | .gt => (link probe new r).map fun r' => .node k l r'
      | .eq => none

theorem descend_lt {probe : κ → Ordering} {k : κ} (h : probe k = .lt) (l r : BinaryTree κ) :
    descend probe (.node k l r) = (descend probe l).or (some k) := by
  simp only [descend, h]

theorem descend_gt {probe : κ → Ordering} {k : κ} (h : probe k = .gt) (l r : BinaryTree κ) :
    descend probe (.node k l r) = (descend probe r).or (some k) := by
  simp only [descend, h]

/-- A leaf linked between the nodes before the point and those after it takes
exactly that place in the sequence. -/
theorem link_inorder {probe : κ → Ordering} {new : κ} {t : BinaryTree κ} :
    ∀ {before after : List κ}, inorder t = before ++ after →
    (∀ k ∈ before, probe k = .gt) → (∀ k ∈ after, probe k = .lt) →
    ∃ t', link probe new t = some t' ∧ inorder t' = before ++ new :: after := by
  induction t with
  | nil =>
    intro before after h _ _
    have hb : before = [] ∧ after = [] := by simpa using h.symm
    exact ⟨_, rfl, by simp [hb.1, hb.2]⟩
  | node k l r ihl ihr =>
    intro before after h hb ha
    rw [inorder_node, List.append_eq_append_iff] at h
    rcases h with ⟨mid, rfl, hmid⟩ | ⟨mid, hl, hmid⟩
    · cases mid with
      | nil =>
        have hk : after = k :: inorder r := by simpa using hmid.symm
        subst hk
        obtain ⟨l', hl', hin⟩ := ihl (List.append_nil (inorder l)).symm
          (by simpa using hb) (by simp)
        refine ⟨.node k l' r, ?_, ?_⟩
        · simp [link, ha k (by simp), hl']
        · simp [hin]
      | cons m mid =>
        obtain ⟨rfl, hr⟩ : k = m ∧ inorder r = mid ++ after := by simpa using hmid
        obtain ⟨r', hr', hin⟩ := ihr hr (fun x hx => hb x (by simp [hx])) ha
        refine ⟨.node k l r', ?_, ?_⟩
        · simp [link, hb k (by simp), hr']
        · simp [hin]
    · subst hmid
      obtain ⟨l', hl', hin⟩ := ihl hl hb (fun x hx => ha x (by simp [hx]))
      refine ⟨.node k l' r, ?_, ?_⟩
      · simp [link, ha k (by simp), hl']
      · simp [hin]

/-! ## A probe that agrees with the order -/

/-- Of two nodes in sequence the point lies after the first or before the second. -/
def Directs (probe : κ → Ordering) (ks : List κ) : Prop :=
  ks.Pairwise fun a b => probe a = .gt ∨ probe b = .lt

/-- The point lies in one node or between two neighbours. -/
theorem Directs.split {probe : κ → Ordering} {ks : List κ} (h : Directs probe ks) :
    (∃ before k after, ks = before ++ k :: after ∧ (∀ a ∈ before, probe a = .gt) ∧
      probe k = .eq ∧ ∀ b ∈ after, probe b = .lt) ∨
    ∃ before after, ks = before ++ after ∧ (∀ a ∈ before, probe a = .gt) ∧
      ∀ b ∈ after, probe b = .lt := by
  induction ks with
  | nil => exact Or.inr ⟨[], [], rfl, by simp, by simp⟩
  | cons a ks ih =>
    obtain ⟨hhead, htail⟩ := List.pairwise_cons.mp h
    cases hp : probe a with
    | lt =>
      refine Or.inr ⟨[], a :: ks, rfl, by simp, ?_⟩
      intro b hb
      rcases List.mem_cons.mp hb with rfl | hb
      · exact hp
      · simpa [hp] using hhead b hb
    | eq =>
      refine Or.inl ⟨[], a, ks, rfl, by simp, hp, ?_⟩
      intro b hb
      simpa [hp] using hhead b hb
    | gt =>
      rcases ih htail with ⟨before, k, after, rfl, hb, hk, ha⟩ | ⟨before, after, rfl, hb, ha⟩
      · exact Or.inl ⟨a :: before, k, after, rfl, by simpa [hp] using hb, hk, ha⟩
      · exact Or.inr ⟨a :: before, after, rfl, by simpa [hp] using hb, ha⟩

/-- The walk ends at the node that contains the point. -/
theorem descend_eq {probe : κ → Ordering} {k : κ} {t : BinaryTree κ} :
    ∀ {before after : List κ}, inorder t = before ++ k :: after →
    (∀ a ∈ before, probe a = .gt) → probe k = .eq → (∀ b ∈ after, probe b = .lt) →
    descend probe t = some k := by
  induction t with
  | nil =>
    intro before after h _ _ _
    simp at h
  | node a l r ihl ihr =>
    intro before after h hb hk ha
    rw [inorder_node, List.append_eq_append_iff] at h
    rcases h with ⟨mid, rfl, hmid⟩ | ⟨mid, hl, hmid⟩
    · cases mid with
      | nil =>
        obtain ⟨rfl, -⟩ : a = k ∧ inorder r = after := by simpa using hmid
        simp [descend, hk]
      | cons m mid =>
        obtain ⟨rfl, hr⟩ : a = m ∧ inorder r = mid ++ k :: after := by simpa using hmid
        have hright := ihr hr (fun x hx => hb x (by simp [hx])) hk ha
        simp [descend, hb a (by simp), hright]
    · cases mid with
      | nil =>
        obtain ⟨rfl, -⟩ : k = a ∧ after = inorder r := by simpa using hmid
        simp [descend, hk]
      | cons m mid =>
        obtain ⟨rfl, rfl⟩ : k = m ∧ after = mid ++ a :: inorder r := by simpa using hmid
        have hleft := ihl hl hb hk fun x hx => ha x (by simp [hx])
        simp [descend, ha a (by simp), hleft]

/-- Off the tree the walk ends beside the point: at its last neighbour before
it or at the first one after it. -/
theorem descend_gap {probe : κ → Ordering} {t : BinaryTree κ} :
    ∀ {before after : List κ}, inorder t = before ++ after → (∀ a ∈ before, probe a = .gt) →
    (∀ b ∈ after, probe b = .lt) → t ≠ .nil →
    ∃ k, descend probe t = some k ∧ (before.getLast? = some k ∨ after.head? = some k) := by
  induction t with
  | nil =>
    intro _ _ _ _ _ h
    exact absurd rfl h
  | node a l r ihl ihr =>
    intro before after h hb ha _
    rw [inorder_node, List.append_eq_append_iff] at h
    -- the root lies after the point or before it
    have left : ∀ mid, inorder l = before ++ mid → after = mid ++ a :: inorder r →
        ∃ k, descend probe (.node a l r) = some k ∧
          (before.getLast? = some k ∨ after.head? = some k) := by
      rintro mid hl rfl
      have hprobe : probe a = .lt := ha a (by simp)
      cases l with
      | nil =>
        obtain ⟨rfl, rfl⟩ : before = [] ∧ mid = [] := by simpa using hl.symm
        exact ⟨a, by simp [descend, hprobe], Or.inr rfl⟩
      | node b l1 l2 =>
        obtain ⟨k, hk, hside⟩ := ihl hl hb (fun x hx => ha x (by simp [hx])) (by simp)
        refine ⟨k, by rw [descend_lt hprobe, hk, Option.some_or], ?_⟩
        rcases hside with hlast | hhead
        · exact Or.inl hlast
        · exact Or.inr (by simp [hhead])
    have right : ∀ mid, before = inorder l ++ a :: mid → inorder r = mid ++ after →
        ∃ k, descend probe (.node a l r) = some k ∧
          (before.getLast? = some k ∨ after.head? = some k) := by
      rintro mid rfl hr
      have hprobe : probe a = .gt := hb a (by simp)
      cases r with
      | nil =>
        obtain ⟨rfl, rfl⟩ : mid = [] ∧ after = [] := by simpa using hr.symm
        exact ⟨a, by simp [descend, hprobe], Or.inl (by simp)⟩
      | node b r1 r2 =>
        obtain ⟨k, hk, hside⟩ := ihr hr (fun x hx => hb x (by simp [hx])) ha (by simp)
        refine ⟨k, by rw [descend_gt hprobe, hk, Option.some_or], ?_⟩
        rcases hside with hlast | hhead
        · exact Or.inl (by simp [List.getLast?_append, List.getLast?_cons, hlast])
        · exact Or.inr hhead
    rcases h with ⟨mid, rfl, hmid⟩ | ⟨mid, hl, hmid⟩
    · cases mid with
      | nil => exact left [] (by simp) (by simpa using hmid.symm)
      | cons m mid =>
        obtain ⟨rfl, hr⟩ : a = m ∧ inorder r = mid ++ after := by simpa using hmid
        exact right mid rfl hr
    · exact left mid hl hmid

/-- The second tree is the first one with one more leaf, put anywhere. -/
inductive Grafted (new : κ) : BinaryTree κ → BinaryTree κ → Prop where
  | leaf : Grafted new .nil (.node new .nil .nil)
  | left {k : κ} {l l' r : BinaryTree κ} : Grafted new l l' →
      Grafted new (.node k l r) (.node k l' r)
  | right {k : κ} {l r r' : BinaryTree κ} : Grafted new r r' →
      Grafted new (.node k l r) (.node k l r')

theorem link_grafted {probe : κ → Ordering} {new : κ} {t : BinaryTree κ} :
    ∀ {t'}, link probe new t = some t' → Grafted new t t' := by
  induction t with
  | nil =>
    intro t' h
    cases h
    exact .leaf
  | node k l r ihl ihr =>
    intro t' h
    simp only [link] at h
    cases hp : probe k with
    | lt =>
      simp only [hp, Option.map_eq_some_iff] at h
      obtain ⟨l', hl', rfl⟩ := h
      exact .left (ihl hl')
    | eq => simp [hp] at h
    | gt =>
      simp only [hp, Option.map_eq_some_iff] at h
      obtain ⟨r', hr', rfl⟩ := h
      exact .right (ihr hr')

theorem Grafted.mem {new : κ} {t t' : BinaryTree κ} (h : Grafted new t t') :
    new ∈ inorder t' := by
  induction h with
  | leaf => simp
  | left _ ih => simp [ih]
  | right _ ih => simp [ih]

/-- Only one place for the leaf agrees with the probe. -/
theorem Grafted.link_eq {probe : κ → Ordering} {new : κ} {t t' : BinaryTree κ}
    (h : Grafted new t t') (horder : (inorder t').Pairwise fun a b =>
      (b = new → probe a = .gt) ∧ (a = new → probe b = .lt)) :
    link probe new t = some t' := by
  induction h with
  | leaf => rfl
  | left hgraft ih =>
    obtain ⟨hl, -, hacross⟩ := List.pairwise_append.mp horder
    have hprobe := (hacross new hgraft.mem _ List.mem_cons_self).2 rfl
    simp [link, hprobe, ih hl]
  | right hgraft ih =>
    obtain ⟨-, hcons, -⟩ := List.pairwise_append.mp horder
    obtain ⟨hroot, hr⟩ := List.pairwise_cons.mp hcons
    have hprobe := (hroot new hgraft.mem).1 rfl
    simp [link, hprobe, ih hr]

/-- The tree whose nodes all hang on the right spine. -/
def rightSpine : List κ → BinaryTree κ
  | [] => .nil
  | k :: ks => .node k .nil (rightSpine ks)

theorem inorder_rightSpine (ks : List κ) : inorder (rightSpine ks) = ks := by
  induction ks with
  | nil => rfl
  | cons k ks ih => simp [rightSpine, ih]

/-! ## Neighbours in the sequence -/

section Neighbours

variable [DecidableEq κ]

/-- The nodes after a given one, in order. -/
def successors (t : BinaryTree κ) (k : κ) : List κ :=
  ((inorder t).dropWhile (· != k)).tail

/-- The next node of the sequence. -/
def next (t : BinaryTree κ) (k : κ) : Option κ := (successors t k).head?

/-- The node before a given one. -/
def prev (t : BinaryTree κ) (k : κ) : Option κ :=
  ((inorder t).takeWhile (· != k)).getLast?

theorem successors_eq {t : BinaryTree κ} {k : κ} {before after : List κ}
    (h : inorder t = before ++ k :: after) (hk : k ∉ before) : successors t k = after := by
  have hd : (before ++ k :: after).dropWhile (· != k) = k :: after := by
    clear h
    induction before with
    | nil => simp
    | cons b before ih =>
      have hb : b ≠ k := fun hbk => hk (by simp [hbk])
      simpa [hb] using ih fun hm => hk (by simp [hm])
  rw [successors, h, hd, List.tail_cons]

theorem prev_eq {t : BinaryTree κ} {k : κ} {before after : List κ}
    (h : inorder t = before ++ k :: after) (hk : k ∉ before) : prev t k = before.getLast? := by
  have ht : (before ++ k :: after).takeWhile (· != k) = before := by
    clear h
    induction before with
    | nil => simp
    | cons b before ih =>
      have hb : b ≠ k := fun hbk => hk (by simp [hbk])
      simpa [hb] using ih fun hm => hk (by simp [hm])
  rw [prev, h, ht]

/-- Insertion and deletion in a balanced tree. All that is known of the
rebalancing is that it keeps the order of the nodes. -/
structure Rebalance (κ : Type*) [DecidableEq κ] where
  insertColor : κ → BinaryTree κ → BinaryTree κ
  erase : κ → BinaryTree κ → BinaryTree κ
  inorder_insertColor : ∀ k t, inorder (insertColor k t) = inorder t
  inorder_erase : ∀ k t, k ∈ inorder t → inorder (erase k t) = (inorder t).erase k

/-- A rebalancing that links without rotating and rebuilds on deletion. -/
def Rebalance.plain : Rebalance κ where
  insertColor := fun _ t => t
  erase := fun k t => rightSpine ((inorder t).erase k)
  inorder_insertColor := fun _ _ => rfl
  inorder_erase := fun _ _ _ => inorder_rightSpine _

end Neighbours

end SearchTree
