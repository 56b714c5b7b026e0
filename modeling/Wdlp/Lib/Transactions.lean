import Mathlib

/-!
# Transactions under row locks

Programs of database statements, and what a server does when it runs several of them at once at the
isolation level *read committed*. A program selects rows `FOR UPDATE` and writes rows, one row a
statement, by its key. A statement sees the rows that are committed when it is executed and the
writes of its own transaction. It locks the row it selects or writes until the transaction ends; a
statement that would lock a row locked by another transaction waits. A statement that finds no row
locks nothing. The writes of a transaction become visible when it commits, all at once; a
transaction that fails, or is aborted from outside at any point, leaves no trace.

Since the lock on a row lasts until the end of the transaction, what a statement saw of a row that
it locked is still true when the transaction commits; what it saw of other rows was true of *some*
committed state that has the locked rows in common with the present one. `Reaches` describes the
progress of a transaction in these terms, and `System.Sound.run` is the rule for invariants that
follows: an invariant of the committed states is kept by every interleaving if it is kept by each
transaction that reaches its end so.

## Main definitions

* `Schema` — the rows of a database by their keys.
* `Program`, `Program.exec` — statements, and their execution without other transactions.
* `System`, `System.step`, `System.run` — the server.
* `Reaches`, `System.Sound` — the progress of one transaction, and of all of them.

## Main results

* `Reaches.congr` — progress is not disturbed by changes of rows that are not locked.
* `System.Sound.step`, `System.Sound.run` — the rule for invariants.
* `System.Sound.step_cases` — what one action does to the committed rows.
* `Reaches.of_bind`, `Reaches.of_select`, `Reaches.of_update` — where a transaction that commits has passed.
-/

namespace CrashSafe

open Function

/-- The rows of a database, read and written by their keys. -/
structure Schema (σ κ : Type) where
  Row : κ → Type
  get : (key : κ) → σ → Option (Row key)
  put : (key : κ) → Row key → σ → σ
  get_put_self : ∀ key row s, get key (put key row s) = some row
  get_put_of_ne : ∀ {key other} row s, other ≠ key → get other (put key row s) = get other s

section Programs

variable {σ κ : Type} {schema : Schema σ κ} {ε α β : Type}

/-- A transaction's statements. `select` is `SELECT … FOR UPDATE` of the row with the key, if the
row is one that is wanted. `update` is any statement that writes the row with the key: from the rows
in view and the current row it finds that a constraint is violated, that nothing is to be written,
or the new row; the transaction goes on with whether a row was written. -/
inductive Program (schema : Schema σ κ) (ε α : Type) where
  | pure (result : α)
  | fail (error : ε)
  | select (key : κ) (wanted : schema.Row key → Bool)
      (next : Option (schema.Row key) → Program schema ε α)
  | update (key : κ) (change : σ → Option (schema.Row key) → Except ε (Option (schema.Row key)))
      (next : Bool → Program schema ε α)

namespace Program

/-- Statements followed by others. -/
def bind : Program schema ε α → (α → Program schema ε β) → Program schema ε β
  | .pure result, rest => rest result
  | .fail error, _ => .fail error
  | .select key wanted next, rest => .select key wanted fun found => (next found).bind rest
  | .update key change next, rest => .update key change fun written => (next written).bind rest

instance : Monad (Program schema ε) where
  pure := .pure
  bind := .bind

/-- The statements without other transactions. -/
def exec : Program schema ε α → σ → Except ε (α × σ)
  | .pure result, s => .ok (result, s)
  | .fail error, _ => .error error
  | .select key wanted next, s => (next ((schema.get key s).filter wanted)).exec s
  | .update key change next, s =>
    match change s (schema.get key s) with
    | .error error => .error error
    | .ok none => (next false).exec s
    | .ok (some row) => (next true).exec (schema.put key row s)

theorem exec_bind (program : Program schema ε α) (rest : α → Program schema ε β) (s : σ) :
    (program.bind rest).exec s = match program.exec s with
      | .ok (result, next) => (rest result).exec next
      | .error error => .error error := by
  induction program generalizing s with
  | pure result => rfl
  | fail error => rfl
  | select key wanted next ih => exact ih _ s
  | update key change next ih =>
    simp only [bind, exec]
    split
    · rfl
    · exact ih _ s
    · exact ih _ _

/-- A sequence of statements succeeds when its parts do, one after the other. -/
theorem exec_bind_eq_ok {program : Program schema ε α} {rest : α → Program schema ε β}
    {s s' : σ} {result : β} : (program.bind rest).exec s = .ok (result, s') ↔ ∃ first
    middle, program.exec s = .ok (first, middle) ∧ (rest first).exec middle = .ok (result, s') := by
  rw [exec_bind]
  cases program.exec s with
  | error error => simp
  | ok pair =>
    obtain ⟨first, middle⟩ := pair
    simp

end Program

/-- The rows that a transaction has written, the latest first. -/
abbrev Writes (schema : Schema σ κ) := List (Σ key, schema.Row key)

/-- The rows in view of a transaction: the committed ones under its own writes. -/
def overlay (writes : Writes schema) (s : σ) : σ :=
  writes.foldr (fun write view => schema.put write.1 write.2 view) s

@[simp] theorem overlay_nil (s : σ) : overlay ([] : Writes schema) s = s := rfl

@[simp] theorem overlay_cons (write : Σ key, schema.Row key) (writes : Writes schema) (s : σ) :
    overlay (write :: writes) s = schema.put write.1 write.2 (overlay writes s) := rfl

theorem get_overlay_congr {key : κ} {s s' : σ} (h : schema.get key s = schema.get key s') :
    (writes : Writes schema) →
    schema.get key (overlay writes s) = schema.get key (overlay writes s')
  | [] => h
  | ⟨other, row⟩ :: writes => by
    by_cases heq : key = other
    · subst heq
      simp [schema.get_put_self]
    · simp [schema.get_put_of_ne _ _ heq, get_overlay_congr h writes]

theorem get_overlay_of_not_mem {key : κ} {s : σ} : (writes : Writes schema) →
    key ∉ writes.map Sigma.fst → schema.get key (overlay writes s) = schema.get key s
  | [], _ => rfl
  | ⟨other, row⟩ :: writes, h => by
    simp only [List.map_cons, List.mem_cons, not_or] at h
    simp [schema.get_put_of_ne _ _ h.1, get_overlay_of_not_mem writes h.2]

end Programs

/-! ### The server -/

section Server

variable {σ κ ι : Type} {schema : Schema σ κ} {ε α : Type}

/-- A running transaction: the statements left and the rows written so far. -/
structure Transaction (schema : Schema σ κ) (ε α : Type) where
  program : Program schema ε α
  writes : Writes schema := []

/-- The committed rows, the running transactions, the locked rows with their holders, and the calls
that have returned, the latest last. -/
structure System (ι : Type) (schema : Schema σ κ) (ε α : Type) where
  committed : σ
  running : ι → Option (Transaction schema ε α) := fun _ => none
  locks : List (κ × ι) := []
  returned : List (ι × Except ε α) := []

/-- What the scheduler does next: a call begins its transaction, its next statement is executed (or
waits), or its connection is lost. -/
inductive Action (ι ε : Type) where
  | start (call : ι)
  | advance (call : ι)
  | abort (call : ι) (error : ε)

namespace System

variable [DecidableEq ι]

/-- The call goes on with other statements, writes and locks. -/
def goOn (system : System ι schema ε α) (call : ι) (next : Transaction schema ε α)
    (locked : List κ) : System ι schema ε α :=
  { system with
    running := update system.running call (some next)
    locks := locked.map (·, call) ++ system.locks }

/-- The call returns and its locks are released. -/
def finish (system : System ι schema ε α) (call : ι) (answer : Except ε α) (committed : σ) :
    System ι schema ε α where
  committed := committed
  running := update system.running call none
  locks := system.locks.filter (·.2 ≠ call)
  returned := system.returned ++ [(call, answer)]

section Running

variable {system : System ι schema ε α} {call other : ι} {next : Transaction schema ε α}

@[simp] theorem running_goOn_self {locked : List κ} :
    (system.goOn call next locked).running call = some next :=
  update_self ..

theorem running_goOn_of_ne {locked : List κ} (h : other ≠ call) :
    (system.goOn call next locked).running other = system.running other :=
  update_of_ne h ..

variable {answer : Except ε α}

@[simp] theorem running_finish_self {committed : σ} :
    (system.finish call answer committed).running call = none :=
  update_self ..

theorem running_finish_of_ne {committed : σ} (h : other ≠ call) :
    (system.finish call answer committed).running other = system.running other :=
  update_of_ne h ..

end Running

variable [DecidableEq κ] (programs : ι → Program schema ε α)

/-- Another call holds the lock on the row. -/
def Blocked (system : System ι schema ε α) (call : ι) (key : κ) : Prop :=
  ∃ lock ∈ system.locks, lock.1 = key ∧ lock.2 ≠ call

instance (system : System ι schema ε α) (call : ι) (key : κ) :
    Decidable (system.Blocked call key) :=
  inferInstanceAs (Decidable (∃ lock ∈ _, _))

/-- The next statement of a running transaction. -/
def advance (system : System ι schema ε α) (call : ι) (transaction : Transaction schema ε α) :
    System ι schema ε α :=
  let view := overlay transaction.writes system.committed
  match transaction.program with
  | .pure result => system.finish call (.ok result) view
  | .fail error => system.finish call (.error error) system.committed
  | .select key wanted next =>
    match (schema.get key view).filter wanted with
    | none => system.goOn call { transaction with program := next none } []
    | some row =>
      if system.Blocked call key then system
      else system.goOn call { transaction with program := next (some row) } [key]
  | .update key change next =>
    match change view (schema.get key view) with
    | .error error => system.finish call (.error error) system.committed
    | .ok none => system.goOn call { transaction with program := next false } []
    | .ok (some row) =>
      if system.Blocked call key then system
      else system.goOn call ⟨next true, ⟨key, row⟩ :: transaction.writes⟩ [key]

/-- One action of the scheduler. Actions for calls that are not running, and the start of a call
that has been started before, do nothing. -/
def step (system : System ι schema ε α) : Action ι ε → System ι schema ε α
  | .start call =>
    if system.running call = none ∧ call ∉ system.returned.map Prod.fst then
      system.goOn call ⟨programs call, []⟩ []
    else system
  | .advance call =>
    match system.running call with
    | none => system
    | some transaction => system.advance call transaction
  | .abort call error =>
    match system.running call with
    | none => system
    | some _ => system.finish call (.error error) system.committed

/-- Any number of actions. -/
def run (system : System ι schema ε α) (actions : List (Action ι ε)) : System ι schema ε α :=
  actions.foldl (step programs) system

end System

/-! ### Progress of one transaction -/

/-- The committed state `seen` was a good one, and has the given rows in common with `now`. -/
def Observed (schema : Schema σ κ) (good : σ → Prop) (keys : List κ) (seen now : σ) : Prop :=
  good seen ∧ ∀ key ∈ keys, schema.get key seen = schema.get key now

/-- The rows locked and written by a transaction, and the statements left. -/
structure Progress (schema : Schema σ κ) (ε α : Type) where
  keys : List κ
  writes : Writes schema
  program : Program schema ε α

/-- One statement of a transaction, judged from the committed state `now`: it was executed in a
state of the past that agrees with `now` on the rows that are locked after it. -/
inductive Executes (schema : Schema σ κ) (good : σ → Prop) (now : σ) :
    Progress schema ε α → Progress schema ε α → Prop where
  | selected {keys : List κ} {writes : Writes schema} {key : κ} {wanted : schema.Row key → Bool}
      {next : Option (schema.Row key) → Program schema ε α} {seen : σ} {row : schema.Row key}
      (observed : Observed schema good (key :: keys) seen now)
      (found : (schema.get key (overlay writes seen)).filter wanted = some row) :
      Executes schema good now ⟨keys, writes, .select key wanted next⟩
        ⟨key :: keys, writes, next (some row)⟩
  | missed {keys : List κ} {writes : Writes schema} {key : κ} {wanted : schema.Row key → Bool}
      {next : Option (schema.Row key) → Program schema ε α} {seen : σ}
      (observed : Observed schema good keys seen now)
      (found : (schema.get key (overlay writes seen)).filter wanted = none) :
      Executes schema good now ⟨keys, writes, .select key wanted next⟩ ⟨keys, writes, next none⟩
  | written {keys : List κ} {writes : Writes schema} {key : κ}
      {change : σ → Option (schema.Row key) → Except ε (Option (schema.Row key))}
      {next : Bool → Program schema ε α} {seen : σ} {row : schema.Row key}
      (observed : Observed schema good (key :: keys) seen now)
      (changed : change (overlay writes seen) (schema.get key (overlay writes seen)) =
        .ok (some row)) :
      Executes schema good now ⟨keys, writes, .update key change next⟩
        ⟨key :: keys, ⟨key, row⟩ :: writes, next true⟩
  | unaffected {keys : List κ} {writes : Writes schema} {key : κ}
      {change : σ → Option (schema.Row key) → Except ε (Option (schema.Row key))}
      {next : Bool → Program schema ε α} {seen : σ}
      (observed : Observed schema good keys seen now)
      (changed : change (overlay writes seen) (schema.get key (overlay writes seen)) = .ok none) :
      Executes schema good now ⟨keys, writes, .update key change next⟩ ⟨keys, writes, next false⟩

/-- Any number of statements. -/
abbrev Reaches (schema : Schema σ κ) (good : σ → Prop) (now : σ) :
    Progress schema ε α → Progress schema ε α → Prop :=
  Relation.ReflTransGen (Executes schema good now)

section Reaching

variable {good : σ → Prop} {now next : σ}
  {start progress : Progress schema ε α}

theorem Observed.congr {keys : List κ} {seen : σ} (h : Observed schema good keys seen now)
    (hagree : ∀ key ∈ keys, schema.get key now = schema.get key next) :
    Observed schema good keys seen next :=
  ⟨h.1, fun key hkey => (h.2 key hkey).trans (hagree key hkey)⟩

theorem Executes.keys_subset (h : Executes schema good now start progress) :
    start.keys ⊆ progress.keys := by
  cases h with
  | selected => exact List.subset_cons_self _ _
  | missed => exact List.Subset.refl _
  | written => exact List.subset_cons_self _ _
  | unaffected => exact List.Subset.refl _

theorem Executes.congr (h : Executes schema good now start progress)
    (hagree : ∀ key ∈ progress.keys, schema.get key now = schema.get key next) :
    Executes schema good next start progress := by
  cases h with
  | selected observed found => exact .selected (observed.congr hagree) found
  | missed observed found => exact .missed (observed.congr hagree) found
  | written observed changed => exact .written (observed.congr hagree) changed
  | unaffected observed changed => exact .unaffected (observed.congr hagree) changed

/-- The progress of a transaction is not disturbed by changes of rows that it has not locked. -/
theorem Reaches.congr (h : Reaches schema good now start progress)
    (hagree : ∀ key ∈ progress.keys, schema.get key now = schema.get key next) :
    Reaches schema good next start progress := by
  induction h with
  | refl => exact .refl
  | tail _ hlast ih =>
    exact .tail (ih fun key hkey => hagree key (hlast.keys_subset hkey)) (hlast.congr hagree)

/-- A transaction writes only rows that it has locked. -/
theorem Reaches.mem_keys_of_written (h : Reaches schema good now start progress)
    (hstart : ∀ key ∈ start.writes.map Sigma.fst, key ∈ start.keys) :
    ∀ key ∈ progress.writes.map Sigma.fst, key ∈ progress.keys := by
  induction h with
  | refl => exact hstart
  | tail _ hlast ih =>
    cases hlast with
    | selected => exact fun key hkey => List.mem_cons_of_mem _ (ih key hkey)
    | missed => exact ih
    | written =>
      intro key hkey
      rcases List.mem_cons.mp hkey with rfl | hbefore
      · exact List.mem_cons_self
      · exact List.mem_cons_of_mem _ (ih key hbefore)
    | unaffected => exact ih

/-! ### Where a transaction that has come to its end has passed -/

variable {keys keys' : List κ} {writes writes' : Writes schema} {result : α}

theorem Reaches.of_pure {early : α}
    (h : Reaches schema good now ⟨keys, writes, (.pure early : Program schema ε α)⟩
      ⟨keys', writes', .pure result⟩) :
    result = early ∧ keys' = keys ∧ writes' = writes := by
  rcases h.cases_head with heq | ⟨_, hfirst, _⟩
  · simp only [Progress.mk.injEq, Program.pure.injEq] at heq
    exact ⟨heq.2.2.symm, heq.1.symm, heq.2.1.symm⟩
  · cases hfirst

theorem Reaches.not_of_fail {error : ε}
    (h : Reaches schema good now ⟨keys, writes, .fail error⟩ ⟨keys', writes', .pure result⟩) :
    False := by
  rcases h.cases_head with heq | ⟨_, hfirst, _⟩
  · simp at heq
  · cases hfirst

theorem Reaches.of_select {key : κ} {wanted : schema.Row key → Bool}
    {found : Option (schema.Row key)}
    (h : Reaches schema good now ⟨keys, writes, (.select key wanted .pure : Program schema ε _)⟩
      ⟨keys', writes', .pure found⟩) :
    writes' = writes ∧ ((∃ row, found = some row ∧ keys' = key :: keys ∧
      (schema.get key (overlay writes now)).filter wanted = some row) ∨
      found = none ∧ keys' = keys) := by
  rcases h.cases_head with heq | ⟨_, hfirst, hrest⟩
  · simp at heq
  · cases hfirst with
    | selected observed hfound =>
      rw [get_overlay_congr (observed.2 key List.mem_cons_self)] at hfound
      obtain ⟨rfl, rfl, rfl⟩ := Reaches.of_pure hrest
      exact ⟨rfl, .inl ⟨_, rfl, rfl, hfound⟩⟩
    | missed observed hfound =>
      obtain ⟨rfl, rfl, rfl⟩ := Reaches.of_pure hrest
      exact ⟨rfl, .inr ⟨rfl, rfl⟩⟩

theorem Reaches.of_update {key : κ} {written : Bool}
    {change : σ → Option (schema.Row key) → Except ε (Option (schema.Row key))}
    (h : Reaches schema good now ⟨keys, writes, .update key change .pure⟩
      ⟨keys', writes', .pure written⟩) :
    (∃ seen row, Observed schema good (key :: keys) seen now ∧
      change (overlay writes seen) (schema.get key (overlay writes now)) = .ok (some row) ∧
      written = true ∧ keys' = key :: keys ∧ writes' = ⟨key, row⟩ :: writes) ∨
    ∃ seen, Observed schema good keys seen now ∧
      change (overlay writes seen) (schema.get key (overlay writes seen)) = .ok none ∧
      written = false ∧ keys' = keys ∧ writes' = writes := by
  rcases h.cases_head with heq | ⟨_, hfirst, hrest⟩
  · simp at heq
  · cases hfirst with
    | written observed changed =>
      rw [get_overlay_congr (observed.2 key List.mem_cons_self)] at changed
      obtain ⟨rfl, rfl, rfl⟩ := Reaches.of_pure hrest
      exact .inl ⟨_, _, observed, changed, rfl, rfl, rfl⟩
    | unaffected observed changed =>
      obtain ⟨rfl, rfl, rfl⟩ := Reaches.of_pure hrest
      exact .inr ⟨_, observed, changed, rfl, rfl, rfl⟩

/-- A sequence of statements comes to its end through the end of its first part. -/
theorem Reaches.of_bind {β : Type} {program : Program schema ε β} {rest : β → Program schema ε α}
    (h : Reaches schema good now ⟨keys, writes, program.bind rest⟩ ⟨keys', writes', .pure result⟩) :
    ∃ middle between first, Reaches schema good now ⟨keys, writes, program⟩
    ⟨middle, between, .pure first⟩ ∧ Reaches schema good now ⟨middle, between, rest first⟩
    ⟨keys', writes', .pure result⟩ := by
  induction program generalizing keys writes with
  | pure first => exact ⟨keys, writes, first, .refl, h⟩
  | fail error => exact h.not_of_fail.elim
  | select key wanted next ih =>
    rcases h.cases_head with heq | ⟨_, hfirst, hrest⟩
    · simp [Program.bind] at heq
    · cases hfirst with
      | selected observed hfound =>
        obtain ⟨middle, between, first, hbefore, hafter⟩ := ih _ hrest
        exact ⟨middle, between, first, .head (.selected observed hfound) hbefore, hafter⟩
      | missed observed hfound =>
        obtain ⟨middle, between, first, hbefore, hafter⟩ := ih _ hrest
        exact ⟨middle, between, first, .head (.missed observed hfound) hbefore, hafter⟩
  | update key change next ih =>
    rcases h.cases_head with heq | ⟨_, hfirst, hrest⟩
    · simp [Program.bind] at heq
    · cases hfirst with
      | written observed changed =>
        obtain ⟨middle, between, first, hbefore, hafter⟩ := ih _ hrest
        exact ⟨middle, between, first, .head (.written observed changed) hbefore, hafter⟩
      | unaffected observed changed =>
        obtain ⟨middle, between, first, hbefore, hafter⟩ := ih _ hrest
        exact ⟨middle, between, first, .head (.unaffected observed changed) hbefore, hafter⟩

end Reaching

/-! ### The rule for invariants -/

namespace System

/-- The committed states for which the invariant holds with some returned calls. -/
def Good (inv : List (ι × Except ε α) → σ → Prop) (s : σ) : Prop := ∃ returned, inv returned s

/-- The invariant holds of the returned calls and the committed rows; a row is locked by one call;
and each running call has come from its first statement to where it is with locks that it holds. -/
structure Sound (programs : ι → Program schema ε α) (inv : List (ι × Except ε α) → σ → Prop)
    (system : System ι schema ε α) : Prop where
  holds : inv system.returned system.committed
  exclusive : ∀ {key call other}, (key, call) ∈ system.locks → (key, other) ∈ system.locks →
    call = other
  unreturned : ∀ {call}, system.running call ≠ none → call ∉ system.returned.map Prod.fst
  progress : ∀ {call transaction}, system.running call = some transaction →
    ∃ keys, (∀ key ∈ keys, (key, call) ∈ system.locks) ∧
      Reaches schema (Good inv) system.committed ⟨[], [], programs call⟩
        ⟨keys, transaction.writes, transaction.program⟩

/-- Every call that reaches its end keeps the invariant when it commits. -/
def Commits (programs : ι → Program schema ε α) (inv : List (ι × Except ε α) → σ → Prop) : Prop :=
  ∀ returned now call keys writes result, inv returned now →
    call ∉ returned.map Prod.fst →
    Reaches schema (Good inv) now ⟨[], [], programs call⟩ ⟨keys, writes, .pure result⟩ →
    inv (returned ++ [(call, .ok result)]) (overlay writes now)

/-- Calls that return an error do not matter. -/
def IgnoresErrors (inv : List (ι × Except ε α) → σ → Prop) : Prop :=
  ∀ returned now call error, inv returned now → inv (returned ++ [(call, .error error)]) now

namespace Sound

variable {programs : ι → Program schema ε α} {inv : List (ι × Except ε α) → σ → Prop}
  {system : System ι schema ε α} {call : ι} {transaction : Transaction schema ε α}

theorem init {s : σ} (h : inv [] s) :
    Sound programs inv ({ committed := s } : System ι schema ε α) where
  holds := h
  exclusive := fun hmem => absurd hmem List.not_mem_nil
  unreturned := fun hrunning => absurd rfl hrunning
  progress := fun hrunning => by simp at hrunning

variable [DecidableEq ι]

/-- A call goes on, with rows that no other call has locked. -/
theorem goOn (h : Sound programs inv system) {keys locked : List κ}
    (hfree : ∀ key ∈ locked, ¬ system.Blocked call key)
    (hkeys : ∀ key ∈ keys, (key, call) ∈ system.locks)
    (hunreturned : call ∉ system.returned.map Prod.fst)
    (hreaches : Reaches schema (Good inv) system.committed ⟨[], [], programs call⟩
      ⟨locked ++ keys, transaction.writes, transaction.program⟩) :
    Sound programs inv (system.goOn call transaction locked) where
  holds := h.holds
  exclusive := by
    intro key first second hfirst hsecond
    have howner : ∀ {other}, key ∈ locked → (key, other) ∈ system.locks → other = call := by
      intro other hlocked hother
      by_contra hne
      exact hfree key hlocked ⟨(key, other), hother, rfl, hne⟩
    simp only [System.goOn, List.mem_append, List.mem_map, Prod.mk.injEq] at hfirst hsecond
    rcases hfirst with ⟨_, hmem, rfl, rfl⟩ | hfirst
    · rcases hsecond with ⟨_, _, _, rfl⟩ | hsecond
      · rfl
      · exact (howner hmem hsecond).symm
    · rcases hsecond with ⟨_, hmem, rfl, rfl⟩ | hsecond
      · exact howner hmem hfirst
      · exact h.exclusive hfirst hsecond
  unreturned := by
    intro other hrunning
    by_cases heq : other = call
    · exact heq ▸ hunreturned
    · rw [running_goOn_of_ne heq] at hrunning
      exact h.unreturned hrunning
  progress := by
    intro other found hrunning
    by_cases heq : other = call
    · subst heq
      obtain rfl : transaction = found := by simpa using hrunning
      refine ⟨locked ++ keys, fun key hkey => ?_, hreaches⟩
      rcases List.mem_append.mp hkey with hnew | hold
      · exact List.mem_append_left _ (List.mem_map.mpr ⟨key, hnew, rfl⟩)
      · exact List.mem_append_right _ (hkeys key hold)
    · rw [running_goOn_of_ne heq] at hrunning
      obtain ⟨others, hothers, hprogress⟩ := h.progress hrunning
      exact ⟨others, fun key hkey => List.mem_append_right _ (hothers key hkey), hprogress⟩

/-- A call returns, with a committed state that differs only in rows that it has locked. -/
theorem finish (h : Sound programs inv system) {answer : Except ε α} {committed : σ}
    (hinv : inv (system.returned ++ [(call, answer)]) committed)
    (hagree : ∀ key, (key, call) ∉ system.locks →
      schema.get key system.committed = schema.get key committed) :
    Sound programs inv (system.finish call answer committed) where
  holds := hinv
  exclusive := fun hfirst hsecond =>
    h.exclusive (List.mem_of_mem_filter hfirst) (List.mem_of_mem_filter hsecond)
  unreturned := by
    intro other hrunning
    have hne : other ≠ call := by
      rintro rfl
      exact hrunning running_finish_self
    rw [running_finish_of_ne hne] at hrunning
    simpa [System.finish, hne] using h.unreturned hrunning
  progress := by
    intro other found hrunning
    have hne : other ≠ call := by
      rintro rfl
      simp at hrunning
    rw [running_finish_of_ne hne] at hrunning
    obtain ⟨keys, hkeys, hprogress⟩ := h.progress hrunning
    refine ⟨keys, fun key hkey => List.mem_filter.mpr ⟨hkeys key hkey, by simpa using hne⟩, ?_⟩
    exact hprogress.congr fun key hkey => hagree key fun hmine =>
      hne (h.exclusive (hkeys key hkey) hmine)

variable [DecidableEq κ]

theorem advance (h : Sound programs inv system) (hcommits : Commits programs inv)
    (herrors : IgnoresErrors inv) (hrunning : system.running call = some transaction) :
    Sound programs inv (system.advance call transaction) := by
  obtain ⟨keys, hkeys, hprogress⟩ := h.progress hrunning
  have hunreturned : call ∉ system.returned.map Prod.fst :=
    h.unreturned (by rw [hrunning]; simp)
  have hobserved : ∀ keys, Observed schema (Good inv) keys system.committed system.committed :=
    fun keys => ⟨⟨_, h.holds⟩, fun _ _ => rfl⟩
  have hfails : ∀ error, Sound programs inv (system.finish call (.error error) system.committed) :=
    fun error => h.finish (herrors _ _ _ _ h.holds) fun _ _ => rfl
  obtain ⟨program, writes⟩ := transaction
  cases program with
  | pure result =>
    refine h.finish (hcommits _ _ _ _ _ _ h.holds hunreturned hprogress) fun key hkey => ?_
    refine (get_overlay_of_not_mem _ fun hwritten => hkey (hkeys key ?_)).symm
    exact hprogress.mem_keys_of_written (by simp) key hwritten
  | fail error => exact hfails error
  | select key wanted next =>
    simp only [System.advance]
    split
    · rename_i hfound
      exact h.goOn (by simp) hkeys hunreturned (hprogress.tail (.missed (hobserved _) hfound))
    · rename_i row hfound
      split
      · exact h
      · rename_i hfree
        exact h.goOn (by simpa using hfree) hkeys hunreturned
          (hprogress.tail (.selected (hobserved _) hfound))
  | update key change next =>
    simp only [System.advance]
    split
    · exact hfails _
    · rename_i hchanged
      exact h.goOn (by simp) hkeys hunreturned (hprogress.tail (.unaffected (hobserved _) hchanged))
    · rename_i row hchanged
      split
      · exact h
      · rename_i hfree
        exact h.goOn (by simpa using hfree) hkeys hunreturned
          (hprogress.tail (.written (hobserved _) hchanged))

theorem step (h : Sound programs inv system) (hcommits : Commits programs inv)
    (herrors : IgnoresErrors inv) (action : Action ι ε) :
    Sound programs inv (system.step programs action) := by
  cases action with
  | start call =>
    simp only [System.step]
    split
    · rename_i hnew
      exact h.goOn (by simp) (fun _ hkey => absurd hkey List.not_mem_nil) hnew.2 .refl
    · exact h
  | advance call =>
    simp only [System.step]
    split
    · exact h
    · rename_i transaction hrunning
      exact h.advance hcommits herrors hrunning
  | abort call error =>
    simp only [System.step]
    split
    · exact h
    · exact h.finish (herrors _ _ _ _ h.holds) fun _ _ => rfl

/-- What an action can do: nothing that shows, a call returns an error and the tables are as they
were, or a call that has come to its end commits. -/
theorem step_cases (h : Sound programs inv system) (action : Action ι ε) :
    ((system.step programs action).returned = system.returned ∧
      (system.step programs action).committed = system.committed) ∨
    (∃ call error, (system.step programs action).returned =
        system.returned ++ [(call, .error error)] ∧
      (system.step programs action).committed = system.committed) ∨
    ∃ call keys writes result, call ∉ system.returned.map Prod.fst ∧
      Reaches schema (Good inv) system.committed ⟨[], [], programs call⟩ ⟨keys, writes, .pure result⟩ ∧
      (system.step programs action).returned = system.returned ++ [(call, .ok result)] ∧
      (system.step programs action).committed = overlay writes system.committed := by
  cases action with
  | start call =>
    simp only [System.step]
    split <;> exact .inl ⟨rfl, rfl⟩
  | abort call error =>
    simp only [System.step]
    split
    · exact .inl ⟨rfl, rfl⟩
    · exact .inr (.inl ⟨call, error, rfl, rfl⟩)
  | advance call =>
    simp only [System.step]
    split
    · exact .inl ⟨rfl, rfl⟩
    · rename_i transaction hrunning
      obtain ⟨keys, -, hprogress⟩ := h.progress hrunning
      obtain ⟨program, writes⟩ := transaction
      cases program with
      | pure result =>
        exact .inr (.inr ⟨call, keys, writes, result, h.unreturned (by rw [hrunning]; simp),
          hprogress, rfl, rfl⟩)
      | fail error => exact .inr (.inl ⟨call, error, rfl, rfl⟩)
      | select key wanted next =>
        simp only [System.advance]
        split
        · exact .inl ⟨rfl, rfl⟩
        · split <;> exact .inl ⟨rfl, rfl⟩
      | update key change next =>
        simp only [System.advance]
        split
        · exact .inr (.inl ⟨call, _, rfl, rfl⟩)
        · exact .inl ⟨rfl, rfl⟩
        · split <;> exact .inl ⟨rfl, rfl⟩

/-- An invariant of the committed states that each transaction keeps when it reaches its end is
kept by every interleaving. -/
theorem run (hcommits : Commits programs inv) (herrors : IgnoresErrors inv) :
    (actions : List (Action ι ε)) → {system : System ι schema ε α} →
    Sound programs inv system → Sound programs inv (system.run programs actions)
  | [], _, h => h
  | action :: actions, _, h => run hcommits herrors actions (h.step hcommits herrors action)

end Sound

end System

end Server

end CrashSafe
