import Mathlib.Data.List.Basic
import Mathlib.Tactic.Common

/-!
# The credentials of the server

A server has a global key and a table of users, each with a key of its own.  Whether a
request has to carry a token is read off the table every time: it does if there is a global
key or at least one user.  Users are added and removed while the server runs.

A C string is given by its bytes without the closing zero, and the empty list stands for
the empty string.

## Main definitions

* `AuthTable` — the global key and the users.
* `AuthTable.required`, `AuthTable.check` — must a request be checked, and the check.
* `AuthTable.addUser`, `AuthTable.removeUser` — the control API.

## Main results

* `AuthTable.check_isSome_iff` — the check accepts the global key and the keys of the users,
  and nothing else.
-/

namespace Mqvpn.Svr

open List

/-- `MQVPN_MAX_USERS`. -/
def maxUsers : ℕ := 64

/-- An entry of `user_names` and `user_keys`. -/
structure User where
  name : List UInt8
  key : List UInt8
  deriving DecidableEq

/-- `auth_key` and the `n_users` entries of the user table. -/
structure AuthTable where
  authKey : List UInt8
  users : List User
  deriving DecidableEq

/-- `svr_auth_required`. -/
def AuthTable.required (t : AuthTable) : Bool :=
  decide (t.authKey ≠ []) || decide (0 < t.users.length)

/-- `mqvpn_auth_ct_compare`: the two differ. -/
def authCtCompare (a b : List UInt8) : Bool :=
  if a.length ≠ b.length then true
  else (a.zip b).foldl (fun result p => result ||| (p.1 ^^^ p.2)) 0 != 0

/-- The token is the given key; an empty key is none. -/
def keyMatches (token key : List UInt8) : Bool := decide (key ≠ []) && !authCtCompare token key

/-- `(global)`, the name that stands for the global key. -/
def globalName : List UInt8 := [0x28, 0x67, 0x6c, 0x6f, 0x62, 0x61, 0x6c, 0x29]

/-- `svr_auth_check`: the name of who was let in. -/
def AuthTable.check (t : AuthTable) : Option (List UInt8) → Option (List UInt8)
  | none => none
  | some token =>
      if !(keyMatches token t.authKey || t.users.any fun u => keyMatches token u.key) then none
      else if keyMatches token t.authKey then some globalName
      else some ((t.users.find? fun u => keyMatches token u.key).elim [] User.name)

/-- The errors of the control API. -/
inductive UserError where
  | invalidArg
  | maxClients
  deriving DecidableEq

/-- A byte that would break the JSON of the control API: a quote, a backslash, a control
character. -/
def badNameByte (b : UInt8) : Bool := b == 0x22 || b == 0x5c || decide (b < 0x20)

/-- `mqvpn_server_add_user`: a name that is there gets the new key.  What does not fit the
255 characters of a key is cut off. -/
def AuthTable.addUser (t : AuthTable) (username key : List UInt8) : Except UserError AuthTable :=
  if username = [] ∨ key = [] then .error .invalidArg
  else if 64 ≤ username.length then .error .invalidArg
  else if username.any badNameByte then .error .invalidArg
  else
    match t.users.findIdx? fun u => u.name == username with
    | some i => .ok { t with users := t.users.modify i fun u => { u with key := key.take 255 } }
    | none =>
        if maxUsers ≤ t.users.length then .error .maxClients
        else .ok { t with users := t.users ++ [{ name := username, key := key.take 255 }] }

/-- `mqvpn_server_remove_user`. -/
def AuthTable.removeUser (t : AuthTable) (username : List UInt8) : Except UserError AuthTable :=
  if username = [] then .error .invalidArg
  else
    match t.users.findIdx? fun u => u.name == username with
    | some i => .ok { t with users := t.users.eraseIdx i }
    | none => .error .invalidArg

/-- The table after a call; a refused call leaves it alone. -/
def AuthTable.after (t : AuthTable) : Except UserError AuthTable → AuthTable
  | .ok t' => t'
  | .error _ => t

/-! ### The check -/

theorem or_foldl_eq_zero_iff (l : List (UInt8 × UInt8)) (r : UInt8) :
    l.foldl (fun result p => result ||| (p.1 ^^^ p.2)) r = 0 ↔
      r = 0 ∧ ∀ p ∈ l, p.1 = p.2 := by
  induction l generalizing r with
  | nil => simp
  | cons p l ih =>
    rw [foldl_cons, ih, UInt8.or_eq_zero_iff, UInt8.xor_eq_zero_iff]
    simp [and_assoc]

/-- The comparison finds no difference exactly between equal strings. -/
theorem authCtCompare_eq_false_iff (a b : List UInt8) : authCtCompare a b = false ↔ a = b := by
  rw [authCtCompare]
  by_cases hlen : a.length = b.length
  · rw [if_neg (not_not.mpr hlen), bne_eq_false_iff_eq, or_foldl_eq_zero_iff]
    constructor
    · rintro ⟨-, hall⟩
      apply ext_getElem hlen
      intro i ha hb
      exact hall (a[i], b[i]) (mem_iff_getElem.mpr
        ⟨i, by rw [length_zip]; omega, getElem_zip⟩)
    · rintro rfl
      refine ⟨rfl, fun p hp => ?_⟩
      obtain ⟨i, hi, rfl⟩ := mem_iff_getElem.mp hp
      rw [getElem_zip]
  · rw [if_pos hlen]
    constructor
    · intro h
      cases h
    · rintro rfl
      exact absurd rfl hlen

@[simp] theorem keyMatches_iff (token key : List UInt8) :
    keyMatches token key = true ↔ key ≠ [] ∧ token = key := by
  rw [keyMatches, Bool.and_eq_true, Bool.not_eq_true', authCtCompare_eq_false_iff,
    decide_eq_true_eq]

/-- The token is the global key or the key of a user who is in the table. -/
def AuthTable.Carries (t : AuthTable) (token : Option (List UInt8)) : Prop :=
  ∃ key, token = some key ∧ key ≠ [] ∧ (key = t.authKey ∨ ∃ u ∈ t.users, key = u.key)

namespace AuthTable

variable (t : AuthTable)

/-- **The check accepts the keys of the table**, and nothing else. -/
theorem check_isSome_iff (token : Option (List UInt8)) :
    (t.check token).isSome = true ↔ t.Carries token := by
  cases token with
  | none => simp [check, AuthTable.Carries]
  | some token =>
    have hany : (keyMatches token t.authKey || t.users.any fun u => keyMatches token u.key) =
        true ↔ t.Carries (some token) := by
      simp only [Bool.or_eq_true, any_eq_true, keyMatches_iff, AuthTable.Carries,
        Option.some.injEq, exists_eq_left']
      constructor
      · rintro (⟨hne, rfl⟩ | ⟨u, hu, hne, rfl⟩)
        · exact ⟨hne, .inl rfl⟩
        · exact ⟨hne, .inr ⟨u, hu, rfl⟩⟩
      · rintro ⟨hne, rfl | ⟨u, hu, rfl⟩⟩
        · exact .inl ⟨hne, rfl⟩
        · exact .inr ⟨u, hu, hne, rfl⟩
    rw [← hany, check]
    cases hok : (keyMatches token t.authKey || t.users.any fun u => keyMatches token u.key)
    · simp
    · simp only [Bool.not_true, Bool.false_eq_true, if_false, iff_true]
      split <;> rfl

/-! ### The table over time -/

theorem required_eq_true_iff : t.required = true ↔ t.authKey ≠ [] ∨ t.users ≠ [] := by
  rw [required, Bool.or_eq_true, decide_eq_true_eq, decide_eq_true_eq,
    length_pos_iff]

/-- What an addition leaves: the global key, and a user. -/
theorem after_addUser (username key : List UInt8) :
    (t.after (t.addUser username key)).authKey = t.authKey ∧
      (t.users ≠ [] → (t.after (t.addUser username key)).users ≠ []) := by
  unfold addUser
  split
  · exact ⟨rfl, id⟩
  · split
    · exact ⟨rfl, id⟩
    · split
      · exact ⟨rfl, id⟩
      · split
        · next i _ =>
          refine ⟨rfl, fun hne hnil => hne ?_⟩
          have hlen := congrArg length (show t.users.modify i _ = [] from hnil)
          rw [length_modify] at hlen
          exact length_eq_zero_iff.mp hlen
        · split
          · exact ⟨rfl, id⟩
          · exact ⟨rfl, fun _ => append_ne_nil_of_right_ne_nil _ (cons_ne_nil _ _)⟩

theorem after_removeUser (username : List UInt8) :
    (t.after (t.removeUser username)).authKey = t.authKey := by
  unfold removeUser
  split
  · rfl
  · split <;> rfl

end AuthTable

end Mqvpn.Svr
