import Mathlib.Logic.Basic

/-!
# Maps over keys with a hash and an equality of their own

A map as a list of entries. An entry is found by a key with the same hash that
the equality accepts, so that what a map keeps apart is decided by the equality
alone once the hash respects it.
-/

namespace KeyMap

set_option autoImplicit false

universe u v w
variable {κ : Type u} {ν : Type v} {ε : Type w}

structure Keys (κ : Type u) where
  hash : κ → UInt32
  eqv : κ → κ → Bool

namespace Keys
variable (K : Keys κ)

structure Lawful : Prop where
  refl : ∀ x, K.eqv x x = true
  symm : ∀ {x y}, K.eqv x y = true → K.eqv y x = true
  trans : ∀ {x y z}, K.eqv x y = true → K.eqv y z = true → K.eqv x z = true
  hash_eq : ∀ {x y}, K.eqv x y = true → K.hash x = K.hash y

def hits (x y : κ) : Bool := K.hash x == K.hash y && K.eqv x y

def find (m : List (κ × ν)) (x : κ) : Option ν :=
  (m.find? fun e => K.hits e.1 x).map Prod.snd

/-- Overwrites the entry that is found, or adds one. -/
def put : List (κ × ν) → κ → ν → List (κ × ν)
  | [], x, v => [(x, v)]
  | e :: m, x, v => if K.hits e.1 x then (e.1, v) :: m else e :: put m x v

/-- One step of a machine that keeps a state for every key. -/
def feed (f : Option ν → ε → ν) (m : List (κ × ν)) (q : κ × ε) : List (κ × ν) :=
  K.put m q.1 (f (K.find m q.1) q.2)

variable {K}

theorem Lawful.hits_eq (hK : K.Lawful) (x y : κ) : K.hits x y = K.eqv x y := by
  unfold hits
  cases h : K.eqv x y with
  | false => simp
  | true => simp [hK.hash_eq h]

@[simp] theorem find_nil (x : κ) : K.find ([] : List (κ × ν)) x = none := rfl

theorem find_cons (e : κ × ν) (m : List (κ × ν)) (x : κ) :
    K.find (e :: m) x = if K.hits e.1 x then some e.2 else K.find m x := by
  unfold find
  rw [List.find?_cons]
  cases K.hits e.1 x <;> rfl

theorem find_put (hK : K.Lawful) (m : List (κ × ν)) (x y : κ) (v : ν) :
    K.find (K.put m x v) y = if K.eqv x y then some v else K.find m y := by
  induction m with
  | nil => rw [put, find_cons, hK.hits_eq]
  | cons e m ih =>
    rw [put]
    by_cases hex : K.hits e.1 x = true
    · -- the overwritten entry answers to the same keys as before
      have hsame : K.eqv e.1 y = K.eqv x y := by
        rw [hK.hits_eq] at hex
        rw [Bool.eq_iff_iff]
        exact ⟨hK.trans (hK.symm hex), hK.trans hex⟩
      rw [if_pos hex, find_cons, find_cons, hK.hits_eq, hsame]
      split <;> rfl
    · rw [if_neg hex, find_cons, find_cons, ih]
      by_cases hey : K.hits e.1 y = true
      · have hxy : ¬ K.eqv x y = true := by
          rw [hK.hits_eq] at hex hey
          intro hxy
          exact hex (hK.trans hey (hK.symm hxy))
        rw [if_pos hey, if_neg hxy, if_pos hey]
      · rw [if_neg hey, if_neg hey]

theorem find_feed (hK : K.Lawful) (f : Option ν → ε → ν) (m : List (κ × ν)) (q : κ × ε) (x : κ) :
    K.find (K.feed f m q) x =
      if K.eqv q.1 x then some (f (K.find m q.1) q.2) else K.find m x :=
  find_put hK m q.1 x _

theorem find_congr (hK : K.Lawful) (m : List (κ × ν)) {x y : κ} (hxy : K.eqv x y = true) :
    K.find m x = K.find m y := by
  induction m with
  | nil => rfl
  | cons e m ih =>
    have hsame : K.eqv e.1 x = K.eqv e.1 y := by
      rw [Bool.eq_iff_iff]
      exact ⟨fun h => hK.trans h hxy, fun h => hK.trans h (hK.symm hxy)⟩
    rw [find_cons, find_cons, ih, hK.hits_eq, hK.hits_eq, hsame]

theorem find_run (hK : K.Lawful) (f : Option ν → ε → ν) (qs : List (κ × ε)) (m : List (κ × ν))
    (x : κ) : K.find (qs.foldl (K.feed f) m) x =
      (qs.filter fun q => K.eqv q.1 x).foldl (fun o q => some (f o q.2)) (K.find m x) := by
  induction qs generalizing m with
  | nil => rfl
  | cons q qs ih =>
    rw [List.foldl_cons, ih, find_feed hK, List.filter_cons]
    by_cases hq : K.eqv q.1 x = true
    · rw [if_pos hq, if_pos hq, List.foldl_cons, find_congr hK m hq]
    · rw [if_neg hq, if_neg hq]

end Keys

end KeyMap
