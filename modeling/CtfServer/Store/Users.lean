import CtfServer.Store.Sessions

/-!
# Users

* `selected_user`          what the SELECT of a signup or a login says of the table;
* `user_inserted`          what an INSERT leaves;
* `user_added`             the statement that adds a row;
* `session_inserted`       the same for the INSERT of a session.
-/

set_option linter.unusedVariables false
set_option linter.unusedSimpArgs false

namespace Store

open App

/-- a row of `users` as the handlers see it -/
def UserRow.toUser (row : UserRow) : User := ⟨row.id, row.username, row.passwordHash⟩

theorem bindUser_values {id username passwordHash : Bytes} {user : User}
    (h : bindUser [some id, some username, some passwordHash] = some user) :
    user = ⟨id, username, passwordHash⟩ := by
  rw [bindUser, Option.ite_none_right_eq_some] at h
  exact (Option.some.inj h.2).symm

section
variable {dateFormat : Int → Bytes} {now : Int} {q : Query} {db db' : Db} {r : DbResult}

/-- a user that was read is a row of the table -/
theorem selected_user {mem : Bool} {users : List User} {user : User}
    (h : Exec dateFormat now .selectUsers db r db')
    (hr : bindUsers mem r = some users) (hu : user ∈ users) :
    ∃ row ∈ db.users, row.toUser = user := by
  obtain ⟨res, hres, -, hmap⟩ := bindRows_some hr
  obtain ⟨values, hvalues, hbind⟩ := Readers.mem_of_mapM hmap hu
  obtain ⟨row, hrow, rfl⟩ := List.mem_map.1 ((h.mem_rows hres).1 hvalues)
  exact ⟨row, hrow, (bindUser_values hbind).symm⟩

/-- an INSERT that succeeds adds its row, under a new name -/
theorem user_inserted {id username passwordHash : Bytes}
    (h : Exec dateFormat now (.insertUser id username passwordHash) db r db')
    (hr : r.success = true) :
    db'.users = db.users ++ [⟨id, username, passwordHash, now⟩] ∧ ∀ user ∈ db.users, user.username ≠
      username := by
  obtain ⟨k, hw⟩ := h.written rfl hr
  generalize hq : Query.insertUser id username passwordHash = q at hw
  generalize r.affected = n at hw
  generalize r.insertId = i at hw
  cases hw <;> cases hq
  next hfree => exact ⟨rfl, fun user huser => (hfree user huser).2⟩

/-- a row that an execution adds is that of its INSERT -/
theorem user_added {row : UserRow} (h : Exec dateFormat now q db r db') (hbefore : row ∉ db.users)
    (hafter : row ∈ db'.users) : q = .insertUser row.id row.username row.passwordHash ∧
    r.success = true := by
  rcases h.cases with ⟨rfl, -⟩ | ⟨hs, -, k, hw⟩
  · exact absurd hafter hbefore
  generalize r.affected = n at hw
  generalize r.insertId = i at hw
  cases hw with
  | insertUser hfree =>
    rcases List.mem_append.1 hafter with hafter | hafter
    · exact absurd hafter hbefore
    · cases List.mem_singleton.1 hafter
      exact ⟨rfl, hs⟩
  | _ => exact absurd hafter hbefore

/-- an INSERT of a session that succeeds adds its row, under a new id -/
theorem session_inserted {id userId : Bytes} {issuedAt expiresAt : Int}
    (h : Exec dateFormat now (.insertSession id userId issuedAt expiresAt) db r db')
    (hr : r.success = true) :
    db'.sessions = db.sessions ++ [⟨id, userId, issuedAt, expiresAt⟩] ∧ ∀ row ∈ db.sessions,
      row.id ≠ id := by
  obtain ⟨k, hw⟩ := h.written rfl hr
  generalize hq : Query.insertSession id userId issuedAt expiresAt = q at hw
  generalize r.affected = n at hw
  generalize r.insertId = i at hw
  cases hw <;> cases hq
  next hfree hu => exact ⟨rfl, hfree⟩

/-- a SELECT leaves the tables -/
theorem selected_same (h : Exec dateFormat now q db r db') (hq : q.isSelect = true) : db' = db := by
  rcases h.cases with ⟨heq, -⟩ | ⟨-, -, k, hw⟩
  · exact heq
  · generalize r.affected = n at hw
    generalize r.insertId = i at hw
    cases hw <;> cases hq

end

end Store
