import Mathlib.Data.Int.Notation
import Mqvpn.Lib.Keyed
import Mqvpn.Server.Auth

/-!
# The user table as a finite map

Users are added and removed by the API and by requests of the control socket, before the server
starts (`mqvpn_config_add_user` and `mqvpn_config_remove_user` do the same as the calls on a running
server) and while it runs.  Beside the table runs what it stands for: for every name the key that
was given last.

The table holds a key in 256 bytes and cuts off what does not fit, so a longer key is accepted by
the API and is then not the one that the server compares with.

## Main definitions

* `UserOp`, `UserBook` — the calls, and the table with the keys that were given.
* `Sets` — what a successful call does to the table.
* `UserBook.Exact`, `UserBook.Attributed` — who is to be let in, and under whose name.

## Main results

* `users_map` — **the table accepts the keys that were given** exactly as long as they fit.
-/

namespace Mqvpn.Svr

open Function
open List hiding beq_eq_decide

variable {t t' : AuthTable} {username k : List UInt8}

/-! ### Requests of the control socket -/

/-- A string without zero bytes is copied, as far as it fits. -/
def jsonCopyStr (val : Option (List UInt8)) (outLen : ℕ) : Option (List UInt8) :=
  (val.filter fun s => !s.contains 0).map (take (outLen - 1))

/-- The number of an error in `libmqvpn.h`. -/
def UserError.code : UserError → ℤ
  | invalidArg => -1
  | maxClients => -8

/-- The table, or the text of the error. -/
def ctrlCmdAddUser (t : AuthTable) (nameVal keyVal : Option (List UInt8)) :
    Except String AuthTable :=
  match jsonCopyStr nameVal 64, jsonCopyStr keyVal 256 with
  | some name, some key =>
      if 64 ≤ (nameVal.getD []).length then .error "name exceeds 63 bytes"
      else
        match t.addUser name key with
        | .ok t => .ok t
        | .error rc => .error ("add_user failed (" ++ toString rc.code ++ ")")
  | _, _ => .error "name and key required"

def ctrlCmdRemoveUser (t : AuthTable) (nameVal : Option (List UInt8)) : Except String AuthTable :=
  match jsonCopyStr nameVal 64 with
  | some name =>
      if 64 ≤ (nameVal.getD []).length then .error "name exceeds 63 bytes"
      else
        match t.removeUser name with
        | .ok t => .ok t
        | .error _ => .error "user not found"
  | none => .error "name required"

/-! ### Histories -/

/-- A call of the API or a request of the control socket. -/
inductive UserOp where
  | add (username key : List UInt8)
  | remove (username : List UInt8)
  | ctrlAdd (nameVal keyVal : Option (List UInt8))
  | ctrlRemove (nameVal : Option (List UInt8))
  deriving DecidableEq

namespace UserOp

def call (t : AuthTable) : UserOp → Option AuthTable
  | add username key => (t.addUser username key).toOption
  | remove username => (t.removeUser username).toOption
  | ctrlAdd nameVal keyVal => (ctrlCmdAddUser t nameVal keyVal).toOption
  | ctrlRemove nameVal => (ctrlCmdRemoveUser t nameVal).toOption

def name : UserOp → List UInt8
  | add username _ => username
  | remove username => username
  | ctrlAdd nameVal _ => nameVal.getD []
  | ctrlRemove nameVal => nameVal.getD []

/-- The whole key that is given. -/
def key : UserOp → Option (List UInt8)
  | add _ key => some key
  | remove _ => none
  | ctrlAdd _ keyVal => keyVal
  | ctrlRemove _ => none

end UserOp

/-- The table, and for every name the key that was given last. -/
structure UserBook where
  table : AuthTable
  given : List UInt8 → Option (List UInt8) := fun _ => none

def UserBook.step (b : UserBook) (op : UserOp) : UserBook :=
  match op.call b.table with
  | some t => { table := t, given := update b.given op.name op.key }
  | none => b

/-- A server with the given global key, and its history. -/
def UserBook.run (authKey : List UInt8) (ops : List UserOp) : UserBook :=
  ops.foldl UserBook.step { table := { authKey := authKey, users := [] } }

/-! ### One call -/

/-- What a successful call does: the name gets the key, or is removed. -/
structure Sets (t t' : AuthTable) (username : List UInt8) (key : Option (List UInt8)) : Prop where
  authKey : t'.authKey = t.authKey
  count : t.users.length ≤ maxUsers → t'.users.length ≤ maxUsers
  unique : (t'.users.map User.name).Nodup
  mem : ∀ u, u ∈ t'.users ↔ u ∈ t.users ∧ u.name ≠ username ∨
    ∃ k, key = some k ∧ u = { name := username, key := k.take 255 }
  nonempty : ∀ k, key = some k → k ≠ []

/-- The key of the entry that was found is replaced. -/
theorem modify_eq_put (hnodup : (t.users.map User.name).Nodup) {i : ℕ}
    (hfind : (t.users.findIdx? fun u => u.name == username) = some i) (k : List UInt8) :
    (t.users.modify i fun u => { u with key := k }) =
      Keyed.put User.name { name := username, key := k } t.users := by
  obtain ⟨hi, hname, -⟩ := findIdx?_eq_some_iff_getElem.1 hfind
  rw [beq_iff_eq] at hname
  apply ext_getElem?
  intro j
  rw [getElem?_modify, Keyed.put, getElem?_map]
  by_cases hj : j < t.users.length
  · rw [getElem?_eq_getElem hj, Option.map_eq_map, Option.map_some, Option.map_some]
    congr 1
    by_cases hij : i = j
    · subst hij
      simp [hname]
    · have hne : t.users[j].name ≠ username := fun heq => hij <|
        (hnodup.of_map User.name).getElem_inj_iff.1 (Keyed.eq_of_key hnodup (getElem_mem hi)
          (getElem_mem hj) (hname.trans heq.symm))
      simp [hij, hne]
  · simp [getElem?_eq_none (Nat.le_of_not_lt hj)]

theorem addUser_ne_nil (h : t.addUser username k = .ok t') : k ≠ [] := by
  rintro rfl
  simp [AuthTable.addUser] at h

theorem addUser_sets (hnodup : (t.users.map User.name).Nodup)
    (h : t.addUser username k = .ok t') : Sets t t' username (some k) := by
  have hne := addUser_ne_nil h
  unfold AuthTable.addUser at h
  cases hfind : t.users.findIdx? fun u => u.name == username with
  | some i =>
    obtain ⟨hi, hname, -⟩ := findIdx?_eq_some_iff_getElem.1 hfind
    rw [beq_iff_eq] at hname
    simp only [hfind, modify_eq_put hnodup hfind] at h
    split_ifs at h
    cases h
    refine ⟨rfl, fun hle => by simpa [Keyed.put] using hle, ?_, fun u => ?_, by simpa using hne⟩
    · rwa [Keyed.map_put User.name fun y _ hy => hy.symm]
    · simp only [Keyed.put, mem_map, Option.some.injEq, exists_eq_left']
      constructor
      · rintro ⟨v, hv, rfl⟩
        split
        · exact .inr rfl
        · next hother => exact .inl ⟨hv, hother⟩
      · rintro (⟨hu, hother⟩ | rfl)
        · exact ⟨u, hu, if_neg hother⟩
        · exact ⟨t.users[i], getElem_mem hi, if_pos hname⟩
  | none =>
    simp only [hfind] at h
    split_ifs at h with _ _ _ hfull
    cases h
    have hnew : ∀ u ∈ t.users, u.name ≠ username := by
      simpa [findIdx?_eq_none_iff] using hfind
    refine ⟨rfl, fun _ => by simp; omega, ?_, fun u => ?_, by simpa using hne⟩
    · simpa [nodup_append, hnodup] using hnew
    · simp only [mem_append, mem_singleton, Option.some.injEq, exists_eq_left']
      exact or_congr_left ⟨fun hu => ⟨hu, hnew u hu⟩, And.left⟩

theorem removeUser_sets (hnodup : (t.users.map User.name).Nodup)
    (h : t.removeUser username = .ok t') : Sets t t' username none := by
  unfold AuthTable.removeUser at h
  cases hfind : t.users.findIdx? fun u => u.name == username with
  | none => simp [hfind] at h
  | some i =>
    obtain ⟨hi, hname, -⟩ := findIdx?_eq_some_iff_getElem.1 hfind
    rw [beq_iff_eq] at hname
    have herase : Keyed.remove User.name username t.users = t.users.eraseIdx i := by
      simp only [beq_eq_decide] at hfind
      simp only [Keyed.remove, eraseP_eq_eraseIdx, beq_eq_decide, hfind]
    simp only [hfind, ← herase] at h
    split_ifs at h
    cases h
    subst hname
    have hperm := Keyed.perm_remove hnodup (getElem_mem hi)
    refine ⟨rfl, fun hle => ?_, ?_, fun u => ?_, by simp⟩
    · rw [hperm.length_eq, length_cons] at hle
      exact Nat.le_of_succ_le hle
    · exact (nodup_cons.1 ((hperm.map User.name).nodup_iff.1 hnodup)).2
    · simpa using Keyed.mem_remove_iff hnodup (getElem_mem hi)

theorem jsonCopyStr_eq_some {val : Option (List UInt8)} {outLen : ℕ}
    (h : jsonCopyStr val outLen = some k) : ∃ s, val = some s ∧ k = s.take (outLen - 1) := by
  obtain ⟨s, hs, rfl⟩ := Option.map_eq_some_iff.1 h
  exact ⟨s, (Option.filter_eq_some_iff.1 hs).1, rfl⟩

/-- A request of the control socket is a call with the strings it carries: a name that does not fit
is refused, and a key is cut off where the call would cut it. -/
theorem UserOp.call_sets (hnodup : (t.users.map User.name).Nodup) {op : UserOp}
    (h : op.call t = some t') : Sets t t' op.name op.key := by
  have hok : ∀ {ε : Type} {r : Except ε AuthTable}, r.toOption = some t' → r = .ok t' := by
    rintro _ (_ | _) hr
    · cases hr
    · exact congrArg Except.ok (Option.some.inj hr)
  have hcopy : ∀ name : List UInt8, ¬64 ≤ name.length → name.take (64 - 1) = name :=
    fun _ hlen => take_of_length_le (by omega)
  cases op with
  | add username key => exact addUser_sets hnodup (hok h)
  | remove username => exact removeUser_sets hnodup (hok h)
  | ctrlAdd nameVal keyVal =>
    have hcall := hok h
    unfold ctrlCmdAddUser at hcall
    split at hcall
    · next name key hname hkey =>
      obtain ⟨name, rfl, rfl⟩ := jsonCopyStr_eq_some hname
      obtain ⟨key, rfl, rfl⟩ := jsonCopyStr_eq_some hkey
      split_ifs at hcall with hlen
      rw [hcopy name hlen] at hcall
      split at hcall <;> cases hcall
      next hadd =>
        have hsets := addUser_sets hnodup hadd
        refine ⟨hsets.authKey, hsets.count, hsets.unique, fun u => ?_, fun k hk => ?_⟩
        · simpa [take_take, UserOp.key, UserOp.name] using hsets.mem u
        · rintro rfl
          cases hk
          exact addUser_ne_nil hadd rfl
    · cases hcall
  | ctrlRemove nameVal =>
    have hcall := hok h
    unfold ctrlCmdRemoveUser at hcall
    split at hcall
    · next name hname =>
      obtain ⟨name, rfl, rfl⟩ := jsonCopyStr_eq_some hname
      split_ifs at hcall with hlen
      rw [hcopy name hlen] at hcall
      split at hcall <;> cases hcall
      next hremove => exact removeUser_sets hnodup hremove
    · cases hcall

/-! ### Whole histories -/

/-- The table holds the keys that were given, as far as they fit. -/
structure UserBook.Holds (b : UserBook) (authKey : List UInt8) : Prop where
  authKey : b.table.authKey = authKey
  count : b.table.users.length ≤ maxUsers
  unique : (b.table.users.map User.name).Nodup
  mem : ∀ u, u ∈ b.table.users ↔ ∃ k, b.given u.name = some k ∧ u.key = k.take 255
  nonempty : ∀ name k, b.given name = some k → k ≠ []

theorem UserBook.Holds.step {b : UserBook} {authKey : List UInt8} (h : b.Holds authKey)
    (op : UserOp) : (b.step op).Holds authKey := by
  unfold UserBook.step
  split
  · next t hcall =>
    have hsets := UserOp.call_sets h.unique hcall
    refine ⟨hsets.authKey.trans h.authKey, hsets.count h.count, hsets.unique, fun u => ?_,
      fun name k => ?_⟩ <;> dsimp only
    · rw [hsets.mem, h.mem]
      by_cases hname : u.name = op.name
      · rw [hname, update_self]
        simp only [ne_eq, not_true_eq_false, and_false, false_or]
        refine exists_congr fun k => and_congr_right fun _ => ?_
        rw [← hname]
        exact ⟨fun heq => by rw [heq], fun heq => by rw [← heq]⟩
      · rw [update_of_ne hname]
        simp only [hname, ne_eq, not_false_eq_true, and_true]
        refine or_iff_left ?_
        rintro ⟨k, -, rfl⟩
        exact hname rfl
    · by_cases hname : name = op.name
      · rw [hname, update_self]
        exact hsets.nonempty k
      · rw [update_of_ne hname]
        exact h.nonempty name k
  · exact h

theorem UserBook.run_holds (authKey : List UInt8) (ops : List UserOp) :
    (UserBook.run authKey ops).Holds authKey := by
  have hstart : ({ table := { authKey := authKey, users := [] } } : UserBook).Holds authKey :=
    ⟨rfl, Nat.zero_le _, nodup_nil, by simp, by simp⟩
  exact foldlRecOn (motive := fun b => b.Holds authKey) ops UserBook.step hstart
    fun b hb op _ => hb.step op

theorem AuthTable.check_eq_some {token name : List UInt8} (h : t.check (some token) = some name) :
    name = globalName ∧ t.authKey ≠ [] ∧ token = t.authKey ∨
      ∃ u ∈ t.users, u.name = name ∧ u.key = token := by
  unfold AuthTable.check at h
  dsimp only at h
  split_ifs at h with hnone hglobal
  · exact .inl ⟨(Option.some.inj h).symm, (keyMatches_iff _ _).1 hglobal⟩
  · cases hfind : t.users.find? fun u => keyMatches token u.key with
    | none =>
      rw [find?_eq_none] at hfind
      simp_all
    | some u =>
      have hkey := find?_some hfind
      rw [keyMatches_iff] at hkey
      rw [hfind] at h
      exact .inr ⟨u, mem_of_find?_eq_some hfind, Option.some.inj h, hkey.2.symm⟩

/-- The keys that were given last have at most 255 bytes. -/
def UserBook.Fits (b : UserBook) : Prop := ∀ name k, b.given name = some k → k.length ≤ 255

/-- A token is accepted exactly if it is the global key or a key that was given last. -/
def UserBook.Exact (b : UserBook) : Prop :=
  ∀ token, (b.table.check (some token)).isSome = true ↔
    b.table.authKey ≠ [] ∧ token = b.table.authKey ∨ ∃ name, b.given name = some token

/-- A token is attributed to a user only if it is the key of that user. -/
def UserBook.Attributed (b : UserBook) : Prop :=
  ∀ token name k, b.table.check (some token) = some name → b.given name = some k → token = k

namespace UserBook.Holds

variable {b : UserBook} {authKey : List UInt8} (h : b.Holds authKey)
include h

theorem exact_of_fits (hfit : b.Fits) : b.Exact := by
  intro token
  rw [AuthTable.check_isSome_iff, AuthTable.Carries]
  constructor
  · rintro ⟨_, ⟨⟩, hne, rfl | ⟨u, hu, rfl⟩⟩
    · exact .inl ⟨hne, rfl⟩
    · obtain ⟨k, hk, hkey⟩ := (h.mem u).1 hu
      rw [take_of_length_le (hfit _ _ hk)] at hkey
      exact .inr ⟨u.name, hkey ▸ hk⟩
  · rintro (⟨hne, rfl⟩ | ⟨name, hk⟩)
    · exact ⟨_, rfl, hne, .inl rfl⟩
    · refine ⟨_, rfl, h.nonempty _ _ hk, .inr ⟨⟨name, token⟩, (h.mem _).2 ⟨token, hk, ?_⟩, rfl⟩⟩
      exact (take_of_length_le (hfit _ _ hk)).symm

/-- A key that is cut off is given and not accepted. -/
theorem fits_of_exact (hkey : authKey.length ≤ 255) (hexact : b.Exact) : b.Fits := by
  intro name k hk
  have hsome := (hexact k).2 (.inr ⟨name, hk⟩)
  rw [AuthTable.check_isSome_iff] at hsome
  obtain ⟨_, ⟨⟩, -, rfl | ⟨u, hu, rfl⟩⟩ := hsome
  · rwa [h.authKey]
  · obtain ⟨k, -, hcut⟩ := (h.mem u).1 hu
    rw [hcut]
    exact length_take_le ..

/-- The global key is written down under the name `(global)`. -/
theorem attributed_iff (hfit : b.Fits) :
    b.Attributed ↔ authKey = [] ∨ ∀ k, b.given globalName = some k → k = authKey := by
  constructor
  · intro hattr
    refine or_iff_not_imp_left.2 fun hne k hk => (hattr authKey globalName k ?_ hk).symm
    have hmatch : keyMatches authKey b.table.authKey = true :=
      (keyMatches_iff _ _).2 ⟨h.authKey ▸ hne, h.authKey.symm⟩
    simp [AuthTable.check, hmatch]
  · intro hglobal token name k hcheck hk
    obtain ⟨rfl, hne, rfl⟩ | ⟨u, hu, rfl, rfl⟩ := AuthTable.check_eq_some hcheck
    · rw [h.authKey] at hne ⊢
      exact ((hglobal.resolve_left hne) k hk).symm
    · obtain ⟨k', hk', hkey⟩ := (h.mem u).1 hu
      cases hk'.symm.trans hk
      rw [hkey, take_of_length_le (hfit _ _ hk)]

end UserBook.Holds

/-- **The table accepts the keys that were given.**  After every history the names are unique and
there are at most 64 users.  The keys that are accepted are those that were given last exactly as
long as these have at most 255 bytes, as the global key has; then a token is attributed to the
wrong user exactly if there is a global key and a user called `(global)` with another one. -/
theorem users_map (authKey : List UInt8) (ops : List UserOp) :
    let b := UserBook.run authKey ops
    b.table.authKey = authKey ∧ (b.table.users.map User.name).Nodup ∧
      b.table.users.length ≤ maxUsers ∧ (b.Fits → b.Exact) ∧
      (authKey.length ≤ 255 → (b.Exact ↔ b.Fits)) ∧
      (b.Fits →
        (b.Attributed ↔ authKey = [] ∨ ∀ k, b.given globalName = some k → k = authKey)) := by
  intro b
  have h := UserBook.run_holds authKey ops
  exact ⟨h.authKey, h.unique, h.count, h.exact_of_fits,
    fun hkey => ⟨h.fits_of_exact hkey, h.exact_of_fits⟩, h.attributed_iff⟩

/-- A user gets a new key and another one is removed again. -/
theorem users_map_rotated :
    let b := UserBook.run [7] [.add [0x61] [1], .ctrlAdd (some [0x62]) (some [2]), .add [0x61] [3],
      .remove [0x62]]
    (b.table.check (some [3])).isSome = true ∧ b.table.check (some [1]) = none ∧
      b.table.check (some [2]) = none := by
  intro b
  have hfit : b.Fits := by
    intro name k hk
    have hmem := ((UserBook.run_holds _ _).mem ⟨name, k.take 255⟩).2 ⟨k, hk, rfl⟩
    have hlen : ∀ u ∈ b.table.users, u.key.length = 1 := by decide +kernel
    have := hlen _ hmem
    rw [length_take] at this
    omega
  exact ⟨((users_map _ _).2.2.2.1 hfit [3]).2 (.inr ⟨[0x61], by decide +kernel⟩), by decide +kernel,
    by decide +kernel⟩

/-- A key of 256 bytes is taken, and then is not accepted while the first 255 bytes of it are; and
the global key is attributed to a user who is called `(global)`. -/
theorem key_cut_off :
    let long : List UInt8 := replicate 256 0x6b
    let b := UserBook.run [7] [.add [0x61] long, .add globalName [1]]
    b.given [0x61] = some long ∧ b.table.check (some long) = none ∧
      b.table.check (some (long.take 255)) = some [0x61] ∧
      b.table.check (some [7]) = some globalName ∧ b.given globalName = some [1] := by
  decide +kernel

end Mqvpn.Svr
