/-!
# Acts that may fail

What an act over a state gives, and the state behind it, whether or not it fails.
-/

namespace ExceptT

variable {ε s α β : Type}

def exec (x : ExceptT ε (StateM s) α) (a : s) : Except ε α × s := x.run.run a

section
variable (a b : s)

theorem exec_bind (x : ExceptT ε (StateM s) α) (f : α → ExceptT ε (StateM s) β) :
    (x >>= f).exec a = match x.exec a with
      | (.ok v, b) => (f v).exec b
      | (.error e, b) => (.error e, b) := by
  simp only [exec, ExceptT.run_bind, StateT.run_bind]
  rcases x.run.run a with ⟨_ | _, b⟩ <;> rfl

@[simp] theorem exec_pure (v : α) : (pure v : ExceptT ε (StateM s) α).exec a = (.ok v, a) := rfl

@[simp] theorem exec_throw (e : ε) :
    (throw e : ExceptT ε (StateM s) α).exec a = (.error e, a) := rfl

@[simp] theorem exec_get : (get : ExceptT ε (StateM s) s).exec a = (.ok a, a) := rfl

@[simp] theorem exec_set : (set b : ExceptT ε (StateM s) PUnit).exec a = (.ok (), b) := rfl

@[simp] theorem exec_modify (f : s → s) :
    (modify f : ExceptT ε (StateM s) PUnit).exec a = (.ok (), f a) := rfl

@[simp] theorem exec_liftM (x : StateM s α) :
    (liftM x : ExceptT ε (StateM s) α).exec a = (.ok (x.run a).1, (x.run a).2) := rfl

theorem exec_tryCatch (x : ExceptT ε (StateM s) α) (f : ε → ExceptT ε (StateM s) α) :
    (tryCatch x f).exec a = match x.exec a with
      | (.ok v, b) => (.ok v, b)
      | (.error e, b) => (f e).exec b := by
  simp only [exec, ExceptT.run_tryCatch, StateT.run_bind]
  rcases x.run.run a with ⟨_ | _, b⟩ <;> rfl

end

end ExceptT
