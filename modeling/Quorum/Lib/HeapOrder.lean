/-
The order of a `container/heap`. An element may stand above another one if they are related by `R`; the heap is ordered
if every element is related to all elements below it, not only to its children, because `R` need not be transitive.
`Pop` keeps that order under the laws below. `Push` keeps it if nothing above a place where the new element may stop is
after the new element, which is always so when the elements are compared by a key.
-/
import Quorum.Lib.ContainerHeap
import Mathlib.Order.Lattice

namespace Quorum.ContainerHeap

/-! ## Positions -/

/-- The position `i` lies above the position `j`. -/
inductive Above (i : Nat) : Nat → Prop
  | parent {j : Nat} (hj : 0 < j) : (j - 1) / 2 = i → Above i j
  | up {j : Nat} (hj : 0 < j) : Above i ((j - 1) / 2) → Above i j

namespace Above

variable {i j k : Nat}

theorem lt (h : Above i j) : i < j := by
  induction h with
  | parent hj hi => omega
  | up hj _ ih => omega

theorem of_lower (h : Above i j) : (j - 1) / 2 = i ∨ Above i ((j - 1) / 2) := by
  cases h with
  | parent _ hi => exact .inl hi
  | up _ h => exact .inr h

theorem trans (hij : Above i j) (hjk : Above j k) : Above i k := by
  induction hjk with
  | parent hk hj => exact .up hk (hj ▸ hij)
  | up hk _ ih => exact .up hk ih

theorem of_root (hj : 0 < j) : Above 0 j := by
  induction j using Nat.strongRecOn with
  | ind j ih =>
    by_cases h0 : (j - 1) / 2 = 0
    · exact .parent hj h0
    · exact .up hj (ih _ (by omega) (Nat.pos_of_ne_zero h0))

/-- What lies below a position is one of its children or lies below one. -/
theorem of_upper (h : Above i j) : ∃ c, (c = 2 * i + 1 ∨ c = 2 * i + 2) ∧ (j = c ∨ Above c j) := by
  induction h with
  | parent hj hi => exact ⟨_, by omega, .inl rfl⟩
  | up hj _ ih =>
    obtain ⟨c, hc, rfl | hbelow⟩ := ih
    · exact ⟨_, hc, .inr (.parent hj rfl)⟩
    · exact ⟨c, hc, .inr (.up hj hbelow)⟩

end Above

/-! ## The order -/

section
variable {α : Type} (R : α → α → Prop)

/-- Below `n`, every element is related to those below it. -/
def Ordered (n : Nat) (h : Array α) : Prop :=
  ∀ i j a b, Above i j → j < n → h[i]? = some a → h[j]? = some b → R a b

/-- The same without the pairs whose upper end is `k`. -/
def DownOrdered (k n : Nat) (h : Array α) : Prop :=
  ∀ i j a b, Above i j → j < n → i ≠ k → h[i]? = some a → h[j]? = some b → R a b

/-- The same without the pairs whose lower end is `k`. -/
def UpOrdered (k : Nat) (h : Array α) : Prop :=
  ∀ i j a b, Above i j → j ≠ k → h[i]? = some a → h[j]? = some b → R a b

variable {R}

theorem ordered_empty : Ordered R 0 (#[] : Array α) := fun _ _ _ _ _ hj => absurd hj (Nat.not_lt_zero _)

theorem Ordered.imp {R' : α → α → Prop} {n : Nat} {h : Array α} (hR : ∀ a b, a ∈ h → b ∈ h → R a b → R' a b)
    (ho : Ordered R n h) : Ordered R' n h := fun i j a b hij hj ha hb =>
  hR a b (Array.mem_of_getElem? ha) (Array.mem_of_getElem? hb) (ho i j a b hij hj ha hb)

/-- The root is related to everything else. -/
theorem Ordered.root {h : Array α} (ho : Ordered R h.size h) {r : α} (hr : h[0]? = some r) (hrefl : R r r) {a : α}
    (ha : a ∈ h) : R r a := by
  obtain ⟨j, hj⟩ := Array.mem_iff_getElem?.1 ha
  rcases Nat.eq_zero_or_pos j with rfl | hpos
  · cases hr.symm.trans hj
    exact hrefl
  · exact ho 0 j r a (.of_root hpos) (Array.getElem?_eq_some_iff.1 hj).1 hr hj

end

/-- What the comparison and the relation have to do with each other. -/
structure Laws {α : Type} (less : α → α → Bool) (R : α → α → Prop) : Prop where
  asymm : ∀ {a b}, less a b = true → less b a = false
  of_not_less : ∀ {a b}, less b a = false → R a b
  extend : ∀ {a b c}, less b a = false → R b c → R a c

variable {α : Type} {less : α → α → Bool} {R : α → α → Prop}

theorem swapIfInBounds_getElem?_ite {h : Array α} {i j : Nat} (hi : i < h.size) (hj : j < h.size) (k : Nat) :
    (h.swapIfInBounds i j)[k]? = if k = i then h[j]? else if k = j then h[i]? else h[k]? := by
  by_cases hki : k = i
  · subst hki
    rw [if_pos rfl, Array.getElem?_eq_getElem (by simpa using hi), Array.getElem_swapIfInBounds_left hj,
      ← Array.getElem?_eq_getElem hj]
  · rw [if_neg hki]
    by_cases hkj : k = j
    · subst hkj
      rw [if_pos rfl, Array.getElem?_eq_getElem (by simpa using hj), Array.getElem_swapIfInBounds_right hi,
        ← Array.getElem?_eq_getElem hi]
    · rw [if_neg hkj, swapIfInBounds_getElem? hki hkj]

theorem lessAt_some {h : Array α} {i j : Nat} {a b : α} (ha : h[i]? = some a) (hb : h[j]? = some b) :
    lessAt less h i j = less a b := by
  simp [lessAt, ha, hb]

/-! ## Sifting down -/

/-- The element the hole's content is compared with is not after the other child. -/
theorem child_spec (hl : Laws less R) {h : Array α} {j1 n : Nat} {c : α}
    (hc : h[child less h j1 n]? = some c) :
    (child less h j1 n = j1 ∨ child less h j1 n = j1 + 1) ∧
      ∀ k b, (k = j1 ∨ k = j1 + 1) → k < n → h[k]? = some b → R c b ∧ less b c = false := by
  have hself : ∀ b, h[child less h j1 n]? = some b → less b c = false := by
    intro b hb
    cases hc.symm.trans hb
    cases hcc : less c c with
    | false => rfl
    | true => rw [hl.asymm hcc] at hcc; cases hcc
  suffices hless : (child less h j1 n = j1 ∨ child less h j1 n = j1 + 1) ∧
      ∀ k b, (k = j1 ∨ k = j1 + 1) → k < n → h[k]? = some b → less b c = false from
    ⟨hless.1, fun k b hk hkn hb => ⟨hl.of_not_less (hless.2 k b hk hkn hb), hless.2 k b hk hkn hb⟩⟩
  unfold child at hc hself ⊢
  split
  · rename_i hright
    rw [if_pos hright] at hc hself
    refine ⟨.inr rfl, fun k b hk hkn hb => ?_⟩
    rcases hk with rfl | rfl
    · rw [lessAt_some hc hb] at hright
      exact hl.asymm hright.2
    · exact hself b hb
  · rename_i hleft
    rw [if_neg hleft] at hc hself
    refine ⟨.inl rfl, fun k b hk hkn hb => ?_⟩
    rcases hk with rfl | rfl
    · exact hself b hb
    · rw [lessAt_some hb hc] at hleft
      exact Bool.eq_false_iff.2 fun hless => hleft ⟨hkn, hless⟩

/-- An element that is not before any element below the hole closes it. -/
theorem DownOrdered.close {k n : Nat} {h : Array α} (hd : DownOrdered R k n h)
    (hk : ∀ j a b, Above k j → j < n → h[k]? = some a → h[j]? = some b → R a b) : Ordered R n h := by
  intro i j a b hij hj ha hb
  by_cases hik : i = k
  · subst hik
    exact hk j a b hij hj ha hb
  · exact hd i j a b hij hj hik ha hb

section
variable {h : Array α} {i n : Nat} {c x : α}

/-- The chosen child is related to everything below the hole. -/
theorem DownOrdered.child_below (hl : Laws less R) (hn : n ≤ h.size) (hd : DownOrdered R i n h)
    (hc : h[child less h (2 * i + 1) n]? = some c) {j : Nat} {b : α} (hij : Above i j) (hj : j < n)
    (hb : h[j]? = some b) :
    R c b := by
  obtain ⟨-, hmin⟩ := child_spec hl hc
  obtain ⟨k, hk, rfl | hkj⟩ := hij.of_upper
  · exact (hmin _ b hk hj hb).1
  · have hkn : k < n := Nat.lt_trans hkj.lt hj
    have hkb := Array.getElem?_eq_getElem (Nat.lt_of_lt_of_le hkn hn)
    refine hl.extend (hmin k _ hk hkn hkb).2 (hd k j _ b hkj hj (by omega) hkb hb)

/-- The child moves up and the hole moves down to its place. -/
theorem DownOrdered.swap (hl : Laws less R) (hn : n ≤ h.size) (hd : DownOrdered R i n h) (hj1 : 2 * i + 1 < n)
    (hc : h[child less h (2 * i + 1) n]? = some c) (hx : h[i]? = some x) (hless : less c x = true) :
    DownOrdered R (child less h (2 * i + 1) n) n (h.swapIfInBounds i (child less h (2 * i + 1) n)) := by
  have hbelow : ∀ {j b}, Above i j → j < n → h[j]? = some b → R c b := hd.child_below hl hn hc
  have hjn := child_lt less (h := h) hj1
  obtain ⟨hside, -⟩ := child_spec hl hc
  generalize hjdef : child less h (2 * i + 1) n = j at hc hjn hside
  have hij : Above i j := .parent (by omega) (by omega)
  have hi : i < h.size := by omega
  have hget := swapIfInBounds_getElem?_ite (h := h) hi (Nat.lt_of_lt_of_le hjn hn)
  intro u v a b huv hv hu ha hb
  rw [hget] at ha hb
  rw [if_neg hu] at ha
  by_cases hui : u = i
  · -- the child is above everything that was below the hole, and above the hole's content
    subst hui
    rw [if_pos rfl, hc] at ha
    cases ha
    have huv' := huv.lt
    rw [if_neg (by omega)] at hb
    split at hb
    · rw [hx] at hb
      cases hb
      exact hl.of_not_less (hl.asymm hless)
    · exact hbelow huv hv hb
  · rw [if_neg hui] at ha
    split at hb
    · rename_i hvi
      subst hvi
      exact hd u j a b (huv.trans hij) hjn hui ha hb
    · split at hb
      · rename_i hvj
        subst hvj
        rcases huv.of_lower with hpar | habove
        · omega
        · have hpi : (v - 1) / 2 = i := by omega
          rw [hpi] at habove
          exact hd u i a b habove (by omega) hui ha hb
      · exact hd u v a b huv hv hui ha hb

end

/-- Sifting down closes the hole: each round moves it to a child, so `n - i` rounds are enough. -/
theorem down_ordered (hl : Laws less R) : ∀ (fuel i n : Nat) (h : Array α), n ≤ h.size → n ≤ i + fuel →
    DownOrdered R i n h → Ordered R n (down less fuel i n h)
  | 0, i, n, h, _, hfuel, hd => hd.close fun j _ _ hij hj => by
    have hlt := hij.lt
    omega
  | fuel + 1, i, n, h, hn, hfuel, hd => by
    simp only [down]
    split
    · rename_i hleaf
      refine hd.close fun j _ _ hij hj => ?_
      obtain ⟨k, hk, rfl | hkj⟩ := hij.of_upper
      · omega
      · have hlt := hkj.lt
        omega
    · rename_i hj1
      rw [Nat.not_le] at hj1
      have hjn := child_lt less (h := h) hj1
      have hc := Array.getElem?_eq_getElem (Nat.lt_of_lt_of_le hjn hn)
      have hx := Array.getElem?_eq_getElem (show i < h.size by omega)
      have hside := (child_spec hl hc).1
      rw [lessAt_some hc hx]
      split
      · rename_i hstop
        refine hd.close fun j a b hij hj ha hb => ?_
        cases hx.symm.trans ha
        exact hl.extend hstop (hd.child_below hl hn hc hij hj hb)
      · rename_i hgo
        rw [Bool.not_eq_false] at hgo
        exact down_ordered hl fuel _ n _ (by simpa using hn) (by omega) (hd.swap hl hn hj1 hc hx hgo)

/-! ## Sifting up -/

section
variable {h : Array α} {j : Nat} {x p : α}

/-- The parent moves down and the new element moves up to its place. -/
theorem UpOrdered.swap (hl : Laws less R) (hu : UpOrdered R j h) (hj : 0 < j) (hx : h[j]? = some x)
    (hp : h[(j - 1) / 2]? = some p) (hless : less x p = true) :
    UpOrdered R ((j - 1) / 2) (h.swapIfInBounds ((j - 1) / 2) j) := by
  have hij : Above ((j - 1) / 2) j := .parent hj rfl
  generalize hi : (j - 1) / 2 = i at hp hij
  have hget :=
    swapIfInBounds_getElem?_ite (h := h) (Array.getElem?_eq_some_iff.1 hp).1 (Array.getElem?_eq_some_iff.1 hx).1
  have hne : i ≠ j := Nat.ne_of_lt hij.lt
  intro u v a b huv hv ha hb
  rw [hget] at ha hb
  rw [if_neg hv] at hb
  by_cases hvj : v = j
  · -- the old parent is below the new element and below what it was below before
    subst hvj
    rw [if_pos rfl, hp] at hb
    cases hb
    rcases huv.of_lower with hpar | habove
    · rw [if_pos (by omega), hx] at ha
      cases ha
      exact hl.of_not_less (hl.asymm hless)
    · rw [hi] at habove
      have hlt := habove.lt
      rw [if_neg (by omega), if_neg (by omega)] at ha
      exact hu u i a p habove hne ha hp
  · rw [if_neg hvj] at hb
    split at ha
    · rename_i hui
      subst hui
      rw [hx] at ha
      cases ha
      exact hl.extend (hl.asymm hless) (hu u v p b huv hvj hp hb)
    · split at ha
      · rename_i huj
        subst huj
        rw [hp] at ha
        cases ha
        exact hu i v p b (hij.trans huv) hvj hp hb
      · exact hu u v a b huv hvj ha hb

/-- An element that nothing above it is after closes the hole. -/
theorem UpOrdered.close (hu : UpOrdered R j h) (hj : ∀ i a b, Above i j → h[i]? = some a → h[j]? = some b → R a b) :
    Ordered R h.size h := by
  intro i k a b hik _ ha hb
  by_cases hkj : k = j
  · subst hkj
    exact hj i a b hik ha hb
  · exact hu i k a b hik hkj ha hb

end

/-- Sifting up closes the hole if nothing above a place where the element may stop is after it. -/
theorem up_ordered (hl : Laws less R) {x : α} : ∀ (fuel j : Nat) (h : Array α), j ≤ fuel → h[j]? = some x →
    UpOrdered R j h →
    (∀ i k a p, Above i k → Above k j → h[i]? = some a → h[k]? = some p → less x p = false → R a x) →
    Ordered R h.size (up less fuel j h)
  | 0, j, h, hfuel, hx, hu, _ => hu.close fun i _ _ hij => by
    have hlt := hij.lt
    omega
  | fuel + 1, j, h, hfuel, hx, hu, hstop => by
    simp only [up]
    have hjs : j < h.size := (Array.getElem?_eq_some_iff.1 hx).1
    have hp := Array.getElem?_eq_getElem (show (j - 1) / 2 < h.size by omega)
    rw [lessAt_some hx hp]
    split
    · rename_i hend
      refine hu.close fun i a b hij ha hb => ?_
      cases hx.symm.trans hb
      have hj := hij.lt
      have hnot := hend.resolve_left (by omega)
      rcases hij.of_lower with hpar | habove
      · subst hpar
        cases hp.symm.trans ha
        exact hl.of_not_less hnot
      · exact hstop i _ a _ habove (.parent (by omega) rfl) ha hp hnot
    · rename_i hgo
      rw [not_or, Bool.not_eq_false] at hgo
      have hj : 0 < j := by omega
      have hget := swapIfInBounds_getElem?_ite (h := h) (show (j - 1) / 2 < h.size by omega) hjs
      have hrec := up_ordered hl fuel ((j - 1) / 2) (h.swapIfInBounds ((j - 1) / 2) j) (by omega)
        (by rw [hget, if_pos rfl]; exact hx) (hu.swap hl hj hx hp hgo.2) ?_
      · simpa using hrec
      · intro i k a q hik hk ha hq hnot
        have hlti := hik.lt
        have hltk := hk.lt
        rw [hget, if_neg (by omega), if_neg (by omega)] at ha hq
        exact hstop i k a q hik (.up hj hk) ha hq hnot

/-! ## Push and Pop -/

/-- `Push` keeps the order if nothing above a place where the new element may stop is after it. -/
theorem push_ordered (hl : Laws less R) {h : Array α} (ho : Ordered R h.size h) {x : α}
    (hstop : ∀ i k a p, Above i k → Above k h.size → h[i]? = some a → h[k]? = some p → less x p = false → R a x) :
    Ordered R (push less h x).size (push less h x) := by
  have hold : ∀ {k a}, k ≠ h.size → (h.push x)[k]? = some a → h[k]? = some a := by
    intro k a hk ha
    rw [Array.getElem?_push, if_neg hk] at ha
    exact ha
  have hsize : (push less h x).size = (h.push x).size := by
    have hlen := (up_perm less h.size h.size (h.push x)).length_eq
    simpa [push] using hlen
  rw [hsize]
  refine up_ordered hl h.size h.size (h.push x) (Nat.le_refl _) Array.getElem?_push_size ?_ ?_
  · intro i j a b hij hj ha hb
    have hb' := hold hj hb
    have hlt := (Array.getElem?_eq_some_iff.1 hb').1
    exact ho i j a b hij hlt (hold (by have := hij.lt; omega) ha) hb'
  · intro i k a p hik hk ha hp
    have hlti := hik.lt
    have hltk := hk.lt
    exact hstop i k a p hik hk (hold (by omega) ha) (hold (by omega) hp)

/-- `Pop` keeps the order. -/
theorem pop_ordered (hl : Laws less R) {h h' : Array α} (ho : Ordered R h.size h) {x : α}
    (hp : pop less h = some (x, h')) : Ordered R h'.size h' := by
  unfold pop at hp
  simp only [Option.map_eq_some_iff, Prod.mk.injEq] at hp
  obtain ⟨y, hy, -, rfl⟩ := hp
  have hswap : DownOrdered R 0 (h.size - 1) (h.swapIfInBounds 0 (h.size - 1)) := by
    intro i j a b hij hj hi ha hb
    have hlt := hij.lt
    rw [swapIfInBounds_getElem? hi (by omega)] at ha
    rw [swapIfInBounds_getElem? (by omega) (by omega)] at hb
    exact ho i j a b hij (by omega) ha hb
  have hdown := down_ordered hl (h.size - 1) 0 (h.size - 1) _ (by simp) (by omega) hswap
  have hsize := ((down_perm less (h.size - 1) 0 (h.size - 1) (h.swapIfInBounds 0 (h.size - 1))).trans
    (swapIfInBounds_perm h 0 (h.size - 1))).length_eq
  simp only [Array.length_toList] at hsize
  generalize down less (h.size - 1) 0 (h.size - 1) (h.swapIfInBounds 0 (h.size - 1)) = d at hdown hsize
  intro i j a b hij hj ha hb
  have hlt := hij.lt
  rw [Array.size_pop] at hj
  rw [Array.getElem?_pop, if_pos (by omega)] at ha
  rw [Array.getElem?_pop, if_pos (by omega)] at hb
  exact hdown i j a b hij (by omega) ha hb

/-! ## Elements compared by a key -/

section
variable {κ : Type} [LinearOrder κ] {key : α → κ} (hkey : ∀ a b, less a b = true ↔ key a < key b)

include hkey

theorem not_less_iff_key (a b : α) : less a b = false ↔ key b ≤ key a := by
  rw [← Bool.not_eq_true, hkey, not_lt]

theorem laws_of_key : Laws less fun a b => key a ≤ key b where
  asymm h := (not_less_iff_key hkey _ _).2 (le_of_lt ((hkey _ _).1 h))
  of_not_less h := (not_less_iff_key hkey _ _).1 h
  extend h hbc := le_trans ((not_less_iff_key hkey _ _).1 h) hbc

theorem push_ordered_key {h : Array α} (ho : Ordered (fun a b => key a ≤ key b) h.size h) (x : α) :
    Ordered (fun a b => key a ≤ key b) (push less h x).size (push less h x) := by
  refine push_ordered (laws_of_key hkey) ho fun i k a p hik hk ha hp hnot => ?_
  have hk' := (Array.getElem?_eq_some_iff.1 hp).1
  exact le_trans (ho i k a p hik hk' ha hp) ((not_less_iff_key hkey _ _).1 hnot)

end

end Quorum.ContainerHeap
