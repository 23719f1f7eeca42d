import ServiceUnits.FileSystem

namespace ServiceUnits

inductive Question where
  | chain (p : Path)
  | read (p : Path)
  | list (p : Path)
deriving DecidableEq

abbrev Question.Answer : Question → Type
  | chain _ => Except Error (List Path)
  | read _ => Except Error ByteArray
  | list _ => Except Error (List String)

def FileSystem.answer (fs : FileSystem) : (q : Question) → q.Answer
  | .chain p => fs.chain p
  | .read p => fs.read p
  | .list p => fs.list p

inductive Inquiry (α : Type) where
  | done (a : α)
  /-- What comes next may depend on the answer. -/
  | ask (q : Question) (next : q.Answer → Inquiry α)

namespace Inquiry

variable {α β : Type}

def bind : Inquiry α → (α → Inquiry β) → Inquiry β
  | done a, f => f a
  | ask q next, f => ask q fun answer => (next answer).bind f

instance : Monad Inquiry where
  pure := done
  bind := bind

def result (fs : FileSystem) : Inquiry α → α
  | done a => a
  | ask q next => (next (fs.answer q)).result fs

/-- The questions in the order in which they are asked, as often as they are. -/
def questions (fs : FileSystem) : Inquiry α → List Question
  | done _ => []
  | ask q next => q :: (next (fs.answer q)).questions fs

def chain (p : Path) : Inquiry (Except Error (List Path)) := ask (.chain p) done

def read (p : Path) : Inquiry (Except Error ByteArray) := ask (.read p) done

def list (p : Path) : Inquiry (Except Error (List String)) := ask (.list p) done

variable {fs : FileSystem}

@[simp] theorem result_chain (p : Path) : (chain p).result fs = fs.chain p := rfl

@[simp] theorem result_read (p : Path) : (read p).result fs = fs.read p := rfl

@[simp] theorem result_list (p : Path) : (list p).result fs = fs.list p := rfl

@[simp] theorem questions_chain (p : Path) : (chain p).questions fs = [.chain p] := rfl

@[simp] theorem questions_read (p : Path) : (read p).questions fs = [.read p] := rfl

@[simp] theorem questions_list (p : Path) : (list p).questions fs = [.list p] := rfl

@[simp] theorem result_pure (a : α) : (pure a : Inquiry α).result fs = a := rfl

@[simp] theorem questions_pure (a : α) : (pure a : Inquiry α).questions fs = [] := rfl

@[simp] theorem result_bind (x : Inquiry α) (f : α → Inquiry β) :
    (x >>= f).result fs = (f (x.result fs)).result fs := by
  change (x.bind f).result fs = _
  induction x with
  | done a => rfl
  | ask q next ih => exact ih (fs.answer q)

@[simp] theorem questions_bind (x : Inquiry α) (f : α → Inquiry β) :
    (x >>= f).questions fs = x.questions fs ++ (f (x.result fs)).questions fs := by
  change (x.bind f).questions fs = _
  induction x with
  | done a => rfl
  | ask q next ih => exact congrArg (q :: ·) (ih (fs.answer q))

/-- One inquiry after the other, with all that they find. -/
def flatMap (f : α → Inquiry (List β)) : List α → Inquiry (List β)
  | [] => return []
  | x :: xs => do
    let found ← f x
    return found ++ (← flatMap f xs)

@[simp] theorem result_flatMap (f : α → Inquiry (List β)) (xs : List α) :
    (flatMap f xs).result fs = xs.flatMap fun x => (f x).result fs := by
  induction xs with
  | nil => rfl
  | cons x xs ih => simp [flatMap, ih]

@[simp] theorem questions_flatMap (f : α → Inquiry (List β)) (xs : List α) :
    (flatMap f xs).questions fs = xs.flatMap fun x => (f x).questions fs := by
  induction xs with
  | nil => rfl
  | cons x xs ih => simp [flatMap, ih]

/-- What is not asked for does not count. -/
theorem result_congr {other : FileSystem} {x : Inquiry α}
    (h : ∀ q ∈ x.questions fs, other.answer q = fs.answer q) : x.result other = x.result fs := by
  induction x with
  | done a => rfl
  | ask q next ih =>
    have hq : other.answer q = fs.answer q := h q List.mem_cons_self
    rw [result, result, hq]
    exact ih _ fun q hq => h q (List.mem_cons_of_mem _ hq)

end Inquiry
end ServiceUnits
