import Mathlib.Data.List.Basic

/-!
# Accounting for what comes in

Items enter a mailbox, are taken out of it and may be dropped by its owner. A log of such events
accounts for the items if nothing is taken that is not there and nothing is dropped that is still
there: then every item is taken once before it is dropped.
-/

namespace Sockperf.Mailbox

set_option autoImplicit false

variable {α : Type}

inductive Event (α : Type) where
  | enter (items : List α)
  | take (x : α)
  | drop (x : α)
  /-- Something was to be taken and there was nothing to take it from. -/
  | fault
  deriving DecidableEq, Repr

section
variable [DecidableEq α]

def account : Event α → List α → Option (List α)
  | .enter items, box => some (box ++ items)
  | .take x, box => if x ∈ box then some (box.erase x) else none
  | .drop x, box => if x ∈ box then none else some box
  | .fault, _ => none

def accounts : List (Event α) → List α → Option (List α)
  | [], box => some box
  | e :: log, box => (account e box).bind (accounts log)

variable {e : Event α} {log log' : List (Event α)} {box box' : List α} {x : α}

theorem accounts_cons (h : account e box = some box') :
    accounts (e :: log) box = accounts log box' := by
  rw [accounts, h, Option.bind_some]

theorem accounts_append (log log' : List (Event α)) (box : List α) :
    accounts (log ++ log') box = (accounts log box).bind (accounts log') := by
  induction log generalizing box with
  | nil => rfl
  | cons e log ih =>
    rw [List.cons_append, accounts, accounts]
    cases account e box with
    | none => rfl
    | some box' => exact ih box'

theorem accounts_append_of_some (h : accounts log box = some box') :
    accounts (log ++ log') box = accounts log' box' := by
  rw [accounts_append, h, Option.bind_some]

theorem account_take_head (x : α) (box : List α) : account (.take x) (x :: box) = some box := by
  rw [account, if_pos List.mem_cons_self, List.erase_cons_head]

theorem accounts_drops {xs : List α} (h : ∀ x ∈ xs, x ∉ box) :
    accounts (xs.map .drop) box = some box := by
  induction xs with
  | nil => rfl
  | cons x xs ih =>
    have hx : account (.drop x) box = some box := if_neg (h x List.mem_cons_self)
    rw [List.map_cons, accounts_cons hx]
    exact ih fun y hy => h y (List.mem_cons_of_mem x hy)

theorem accounts_lost (hbox : x ∈ box) (hdrop : .drop x ∈ log) (htake : ∀ y, .take y ∉ log) :
    accounts log box = none := by
  induction log generalizing box with
  | nil => cases hdrop
  | cons e log ih =>
    have htake' : ∀ y, .take y ∉ log := fun y hy => htake y (List.mem_cons_of_mem e hy)
    rw [accounts]
    cases e with
    | enter items =>
      have hdrop' : .drop x ∈ log := (List.mem_cons.mp hdrop).resolve_left nofun
      exact ih (List.mem_append_left items hbox) hdrop' htake'
    | take y => exact absurd List.mem_cons_self (htake y)
    | drop y =>
      by_cases hy : y ∈ box
      · rw [account, if_pos hy, Option.bind_none]
      · rw [account, if_neg hy, Option.bind_some]
        have hne : Event.drop x ≠ .drop y := by
          rintro ⟨⟩
          exact hy hbox
        exact ih hbox ((List.mem_cons.mp hdrop).resolve_left hne) htake'
    | fault => rfl

end

end Sockperf.Mailbox
