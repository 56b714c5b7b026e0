import Wdlp.Session.Monitor

/-!
# Actors and runtimes in step

Over every run of the monitor the map of actors and the map of runtimes stay in step: a mounted
actor has its runtime, a runtime has its actor, and generations identify actors for good. Two
relations carry the proof. `SessionMonitor.InStep` says what holds of the two maps between calls;
`SessionMonitor.Follows` says what a later monitor may have in common with an earlier one: an old
actor is the same session, still retired if it was, and everything else is of a new generation.

A sign-out only marks the actors of the session. The check of the hosts passes them over, so that
their runtimes stay until the service stops (`Lingers.after`), and a logon whose handshake fails
leaves an actor that answers the next logon (`failed_logon_retryable_iff`).

## Main definitions

* `SessionMonitor.InStep`, `SessionMonitor.Follows` — the invariant, and what time preserves.
* `SessionMonitor.Lingers` — a retired actor's runtime is still stored.
* `SessionMonitor.Retryable` — the next logon of a session and SID is a new attempt.

## Main results

* `after_keeps` — every run keeps the maps in step.
* `actors_in_step` — the properties of the two maps, together.
* `signed_out_runtime_gone_iff` — the runtime of a signed-out session is gone exactly when the
  service has been stopped.
* `failed_logon_retryable_iff` — a failed logon can be retried exactly when it did not fail in the
  handshake.
-/

namespace Wdlp

open CrashSafe Act

/-- The actor was drained or stopped. -/
def MountActor.Retired (actor : MountActor) : Prop :=
  actor.state = .draining ∨ actor.state = .stopped

instance (actor : MountActor) : Decidable actor.Retired := inferInstanceAs (Decidable (_ ∨ _))

namespace SessionMonitor

variable {P : Primitives} {m m' m'' : SessionMonitor}

/-- The actors and the runtimes agree. -/
structure InStep (m : SessionMonitor) : Prop where
  keyed : ∀ {key : ActorKey} {actor : MountActor}, m.actors[key]? = some actor →
    key = ⟨actor.session.sessionId, actor.session.userSid⟩
  drawn : ∀ {key : ActorKey} {actor : MountActor}, m.actors[key]? = some actor → actor.session.generation < m.nextGeneration
  distinct : ∀ {key key' : ActorKey} {actor actor' : MountActor}, m.actors[key]? = some actor →
    m.actors[key']? = some actor' → actor.session.generation = actor'.session.generation →
      key = key'
  mounted : ∀ {key : ActorKey} {actor : MountActor}, m.actors[key]? = some actor → actor.state = .mounted →
    actor.session.generation ∈ m.runtimes
  owned : ∀ {generation : ℕ}, generation ∈ m.runtimes → ∃ (key : ActorKey) (actor : MountActor), m.actors[key]? = some actor ∧
    actor.session.generation = generation ∧ (actor.state = .mounted ∨ actor.state = .draining)
  rejecting : ∀ {key : ActorKey} {actor : MountActor}, m.actors[key]? = some actor → actor.Retired →
    actor.rejectNewOpens = true
  vacant : ∀ launch ∈ m.launches, launch.occupied = false

/-- `m'` comes after `m`. -/
structure Follows (m m' : SessionMonitor) : Prop where
  counter : m.nextGeneration ≤ m'.nextGeneration
  actor : ∀ {key : ActorKey} {actor' : MountActor}, m'.actors[key]? = some actor' →
    m.nextGeneration ≤ actor'.session.generation ∨ ∃ actor : MountActor, m.actors[key]? = some actor ∧
      actor'.session = actor.session ∧ (actor.Retired → actor'.Retired)
  runtime : ∀ {generation : ℕ}, generation ∈ m'.runtimes →
    m.nextGeneration ≤ generation ∨ generation ∈ m.runtimes

theorem Follows.refl (m : SessionMonitor) : Follows m m :=
  ⟨le_rfl, fun h => .inr ⟨_, h, rfl, id⟩, .inr⟩

theorem Follows.trans (h : Follows m m') (h' : Follows m' m'') : Follows m m'' where
  counter := h.counter.trans h'.counter
  actor ha := by
    obtain hnew | ⟨actor', ha', hsession', hretired'⟩ := h'.actor ha
    · exact .inl (h.counter.trans hnew)
    · rw [hsession']
      obtain hnew | ⟨actor, ha, hsession, hretired⟩ := h.actor ha'
      · exact .inl hnew
      · exact .inr ⟨actor, ha, hsession, hretired' ∘ hretired⟩
  runtime hg := by
    obtain hnew | hg' := h'.runtime hg
    · exact .inl (h.counter.trans hnew)
    · exact h.runtime hg'

/-! ### The steps -/

theorem InStep.draw (h : InStep m) : InStep m.draw :=
  ⟨h.keyed, fun ha => (h.drawn ha).trans (Nat.lt_succ_self _), h.distinct, h.mounted, h.owned,
    h.rejecting, h.vacant⟩

theorem follows_draw (m : SessionMonitor) : Follows m m.draw :=
  ⟨Nat.le_succ _, fun h => .inr ⟨_, h, rfl, id⟩, .inr⟩

variable {session : EligibleSession}

/-- A launch with no actor in the way. -/
theorem InStep.launching (h : InStep m)
    (hvacant : m.actors[(⟨session.sessionId, session.userSid⟩ : ActorKey)]? = none) :
    InStep (m.launching session) where
  keyed := h.keyed
  drawn := h.drawn
  distinct := h.distinct
  mounted := h.mounted
  owned := h.owned
  rejecting := h.rejecting
  vacant launch hlaunch := by
    obtain hold | hnew := List.mem_append.mp hlaunch
    · exact h.vacant launch hold
    · rw [List.mem_singleton.mp hnew]
      exact decide_eq_false (Map.not_mem_iff_get.mpr hvacant)

theorem follows_launching (m : SessionMonitor) (session : EligibleSession) :
    Follows m (m.draw.launching session) :=
  ⟨Nat.le_succ _, fun h => .inr ⟨_, h, rfl, id⟩, .inr⟩

/-- A new actor, of a generation no other actor has: it is recorded as failed, or mounted together
with its runtime. -/
structure Enters (m : SessionMonitor) (actor : MountActor) (m' : SessionMonitor) : Prop where
  vacant : m.actors[(⟨actor.session.sessionId, actor.session.userSid⟩ : ActorKey)]? = none
  drawn : actor.session.generation < m.nextGeneration
  unused : ∀ {key : ActorKey} {other : MountActor}, m.actors[key]? = some other →
    other.session.generation ≠ actor.session.generation
  active : ¬actor.Retired
  actors : m'.actors =
    m.actors.insert ⟨actor.session.sessionId, actor.session.userSid⟩ actor
  runtimes : ∀ generation, generation ∈ m'.runtimes ↔
    generation ∈ m.runtimes ∨ (generation = actor.session.generation ∧ actor.state = .mounted)
  counter : m'.nextGeneration = m.nextGeneration
  launches : m'.launches = m.launches

namespace Enters

variable {actor : MountActor}

theorem get_actors (h : Enters m actor m') (key : ActorKey) : m'.actors[key]? =
    if ⟨actor.session.sessionId, actor.session.userSid⟩ = key then some actor
    else m.actors[key]? := by
  rw [h.actors, Map.get_insert]

variable {other : MountActor}

/-- An actor that was there before stays. -/
theorem get_of_get (h : Enters m actor m') {key : ActorKey}
    (hother : m.actors[key]? = some other) : m'.actors[key]? = some other := by
  rw [h.get_actors, if_neg, hother]
  rintro rfl
  rw [h.vacant] at hother
  cases hother

/-- An actor is the new one or was there before. -/
theorem cases (h : Enters m actor m') {key : ActorKey} (hother : m'.actors[key]? = some other) :
    (key = ⟨actor.session.sessionId, actor.session.userSid⟩ ∧ other = actor) ∨
      m.actors[key]? = some other := by
  rw [h.get_actors] at hother
  split at hother
  · next heq => exact .inl ⟨heq.symm, (Option.some.inj hother).symm⟩
  · exact .inr hother

theorem inStep (h : Enters m actor m') (hm : InStep m) : InStep m' where
  keyed hkey := by
    obtain ⟨rfl, rfl⟩ | hold := h.cases hkey
    · rfl
    · exact hm.keyed hold
  drawn hkey := by
    rw [h.counter]
    obtain ⟨-, rfl⟩ | hold := h.cases hkey
    · exact h.drawn
    · exact hm.drawn hold
  distinct hkey hkey' heq := by
    obtain ⟨rfl, rfl⟩ | hold := h.cases hkey <;> obtain ⟨rfl, rfl⟩ | hold' := h.cases hkey'
    · rfl
    · exact absurd heq.symm (h.unused hold')
    · exact absurd heq (h.unused hold)
    · exact hm.distinct hold hold' heq
  mounted hkey hstate := by
    rw [h.runtimes]
    obtain ⟨-, rfl⟩ | hold := h.cases hkey
    · exact .inr ⟨rfl, hstate⟩
    · exact .inl (hm.mounted hold hstate)
  owned hg := by
    obtain hold | ⟨rfl, hstate⟩ := (h.runtimes _).mp hg
    · obtain ⟨key, other, hother, hgeneration, hstate⟩ := hm.owned hold
      exact ⟨key, other, h.get_of_get hother, hgeneration, hstate⟩
    · exact ⟨_, actor, by rw [h.get_actors, if_pos rfl], rfl, .inl hstate⟩
  rejecting hkey hretired := by
    obtain ⟨-, rfl⟩ | hold := h.cases hkey
    · exact absurd hretired h.active
    · exact hm.rejecting hold hretired
  vacant := by
    rw [h.launches]
    exact hm.vacant

end Enters

variable {actor : MountActor} {answers : Answers}

/-- The actor of a logon that reached the launcher enters: its generation is the one drawn. -/
theorem enters_of_reachesLauncher (hm : InStep m) (h : ReachesLauncher P m answers session)
    (hsession : actor.session = session) (hactive : ¬actor.Retired)
    (hactors : m'.actors = (m.draw.launching session).actors.insert
      ⟨actor.session.sessionId, actor.session.userSid⟩ actor)
    (hruntimes : ∀ generation, generation ∈ m'.runtimes ↔ generation ∈ m.runtimes ∨
      (generation = actor.session.generation ∧ actor.state = .mounted))
    (hcounter : m'.nextGeneration = m.draw.nextGeneration)
    (hlaunches : m'.launches = (m.draw.launching session).launches) :
    Enters (m.draw.launching session) actor m' where
  vacant := by
    rw [hsession]
    exact h.vacant
  drawn := by
    rw [hsession, h.generation]
    exact Nat.lt_succ_self _
  unused {key other} hother := by
    have hlt : other.session.generation < m.nextGeneration := hm.drawn hother
    rw [hsession, h.generation]
    exact hlt.ne
  active := hactive
  actors := hactors
  runtimes := hruntimes
  counter := hcounter
  launches := hlaunches

/-- What a logon leaves: the monitor as it was, with a generation drawn, with a launch, or with a
new actor as well. -/
theorem sessionLogon_state (P : Primitives) (sessionId : UInt32) (answers : Answers) (hm : InStep m) :
    let m' := (sessionLogon P sessionId answers m).state
    m' = m ∨ m' = m.draw ∨ ∃ session, ReachesLauncher P m answers session ∧
      (m' = m.draw.launching session ∨
        ∃ actor, actor.session = session ∧ Enters (m.draw.launching session) actor m') := by
  have hends := logonEnds_sessionLogon P sessionId answers m
  generalize sessionLogon P sessionId answers m = outcome at hends
  cases hends with
  | rejected error => exact .inl rfl
  | existing sid actor htoken hfound => exact .inl rfl
  | unprepared error => exact .inr (.inl rfl)
  | unlaunched session error hreached hid hfailed =>
    exact .inr (.inr ⟨session, hreached, .inl rfl⟩)
  | unauthenticated session pid hreached hid hlaunched hfailed =>
    refine .inr (.inr ⟨session, hreached, .inr
      ⟨(MountActor.new session).setFailed .pipeAuthFailed, rfl, ?_⟩⟩)
    refine enters_of_reachesLauncher hm hreached rfl (by simp [MountActor.Retired,
      MountActor.setFailed]) rfl (fun generation => ?_) rfl rfl
    exact ⟨.inl, fun h => h.elim id fun h => nomatch h.2⟩
  | mounted session pid driveLetter hreached hid hlaunched hpassed =>
    refine .inr (.inr ⟨session, hreached, .inr
      ⟨(MountActor.new session).setMounted driveLetter pid, rfl, ?_⟩⟩)
    refine enters_of_reachesLauncher hm hreached rfl (by simp [MountActor.Retired,
      MountActor.setMounted]) rfl (fun generation => ?_) rfl rfl
    simp only [Outcome.state_ok, record, store, Std.ExtTreeMap.mem_insert,
      Std.LawfulEqCmp.compare_eq_iff_eq]
    exact ⟨fun h => h.elim (fun h => .inr ⟨h.symm, rfl⟩) .inl,
      fun h => h.elim .inr fun h => .inl h.1.symm⟩

/-- An actor that enters is of a new generation. -/
theorem Enters.follows (h : Enters m actor m')
    (hold : m''.nextGeneration ≤ actor.session.generation) (hm : Follows m'' m) :
    Follows m'' m' where
  counter := by
    rw [h.counter]
    exact hm.counter
  actor hkey := by
    obtain ⟨-, rfl⟩ | hother := h.cases hkey
    · exact .inl hold
    · exact hm.actor hother
  runtime hg := by
    obtain hg | ⟨rfl, -⟩ := (h.runtimes _).mp hg
    · exact hm.runtime hg
    · exact .inl hold

theorem sessionLogon_keeps (P : Primitives) (sessionId : UInt32) (answers : Answers) (hm : InStep m) :
    InStep (sessionLogon P sessionId answers m).state ∧
      Follows m (sessionLogon P sessionId answers m).state := by
  obtain heq | heq | ⟨session, hreached, heq | ⟨actor, hsession, henters⟩⟩ :=
    sessionLogon_state P sessionId answers hm
  · rw [heq]
    exact ⟨hm, .refl m⟩
  · rw [heq]
    exact ⟨hm.draw, follows_draw m⟩
  · rw [heq]
    exact ⟨hm.draw.launching hreached.vacant, follows_launching m session⟩
  · refine ⟨henters.inStep (hm.draw.launching hreached.vacant),
      henters.follows ?_ (follows_launching m session)⟩
    rw [hsession, hreached.generation]

/-! ### Discarding, draining and stopping -/

theorem get_discard (generation : ℕ) (key : ActorKey) : (m.discard generation).actors[key]? = some
    actor ↔ m.actors[key]? = some actor ∧ actor.session.generation ≠ generation := by
  simp [discard, Option.filter_eq_some_iff]

theorem mem_runtimes_discard {generation other : ℕ} :
    other ∈ (m.discard generation).runtimes ↔ other ∈ m.runtimes ∧ other ≠ generation := by
  simp only [discard, Std.ExtTreeMap.mem_erase, ne_eq, Std.LawfulEqCmp.compare_eq_iff_eq,
    eq_comm (a := generation), and_comm]

theorem discard_keeps (generation : ℕ) (hm : InStep m) :
    InStep (m.discard generation) ∧ Follows m (m.discard generation) := by
  refine ⟨⟨fun h => hm.keyed ((get_discard ..).mp h).1, fun h => hm.drawn ((get_discard ..).mp h).1,
    fun h h' => hm.distinct ((get_discard ..).mp h).1 ((get_discard ..).mp h').1,
    fun h hstate => ?_, fun hg => ?_, fun h => hm.rejecting ((get_discard ..).mp h).1, hm.vacant⟩,
    ⟨le_rfl, fun h => .inr ⟨_, ((get_discard ..).mp h).1, rfl, id⟩,
      fun hg => .inr (mem_runtimes_discard.mp hg).1⟩⟩
  · obtain ⟨hold, hne⟩ := (get_discard ..).mp h
    exact mem_runtimes_discard.mpr ⟨hm.mounted hold hstate, hne⟩
  · obtain ⟨hold, hne⟩ := mem_runtimes_discard.mp hg
    obtain ⟨key, actor, hactor, rfl, hstate⟩ := hm.owned hold
    exact ⟨key, actor, (get_discard ..).mpr ⟨hactor, hne⟩, rfl, hstate⟩

/-- What a logoff or a stop does to an actor: it is left alone or retired. -/
structure Retires (f : MountActor → MountActor) : Prop where
  session : ∀ actor, (f actor).session = actor.session
  retired : ∀ actor, f actor = actor ∨ ((f actor).Retired ∧ (f actor).rejectNewOpens = true)

theorem retires_stop : Retires MountActor.stop := ⟨fun _ => rfl, fun _ => .inr ⟨.inr rfl, rfl⟩⟩

theorem retires_logoff (sessionId : UInt32) : Retires fun actor =>
    if actor.session.sessionId = sessionId then actor.beginDrain else actor where
  session actor := by split <;> rfl
  retired actor := by
    split
    · exact .inr ⟨.inl rfl, rfl⟩
    · exact .inl rfl

theorem sessionLogoff_state (sessionId : UInt32) : (sessionLogoff sessionId m).state =
    { m with actors := m.actors.map fun _ actor =>
        if actor.session.sessionId = sessionId then actor.beginDrain else actor } := by
  unfold sessionLogoff
  simp only [bind_apply, get_apply, modify_apply, failIf_apply]
  split <;> rfl

/-- Retiring actors keeps the maps in step when the runtimes left are those of actors that were not
stopped. -/
theorem Retires.keeps {f : MountActor → MountActor} (hf : Retires f) (hm : InStep m)
    {runtimes : Map ℕ ActorRuntime} (hsub : ∀ g ∈ runtimes, g ∈ m.runtimes)
    (hmounted : ∀ actor, (f actor).state = .mounted → actor.session.generation ∈ m.runtimes →
      actor.session.generation ∈ runtimes)
    (howned : ∀ actor, actor.session.generation ∈ runtimes → actor.state = .mounted ∨
      actor.state = .draining → (f actor).state = .mounted ∨ (f actor).state = .draining) :
    let m' : SessionMonitor :=
      { m with actors := m.actors.map fun _ actor => f actor, runtimes := runtimes }
    InStep m' ∧ Follows m m' := by
  have hget : ∀ {key : ActorKey} {actor' : MountActor},
      (m.actors.map fun _ actor => f actor)[key]? = some actor' ↔
        ∃ actor, m.actors[key]? = some actor ∧ f actor = actor' := by
    intro key actor'
    rw [Std.ExtTreeMap.getElem?_map, Option.map_eq_some_iff]
  have hsession := hf.session
  refine ⟨⟨fun h => ?_, fun h => ?_, fun h h' heq => ?_, fun h hstate => ?_, fun hg => ?_,
    fun h hretired => ?_, hm.vacant⟩, ⟨le_rfl, fun h => ?_, fun hg => .inr (hsub _ hg)⟩⟩
  · obtain ⟨actor, hactor, rfl⟩ := hget.mp h
    rw [hsession]
    exact hm.keyed hactor
  · obtain ⟨actor, hactor, rfl⟩ := hget.mp h
    rw [hsession]
    exact hm.drawn hactor
  · obtain ⟨actor, hactor, rfl⟩ := hget.mp h
    obtain ⟨actor', hactor', rfl⟩ := hget.mp h'
    rw [hsession, hsession] at heq
    exact hm.distinct hactor hactor' heq
  · obtain ⟨actor, hactor, rfl⟩ := hget.mp h
    rw [hsession]
    refine hmounted actor hstate (hm.mounted hactor ?_)
    obtain hsame | ⟨hretired, -⟩ := hf.retired actor
    · rwa [hsame] at hstate
    · rw [MountActor.Retired, hstate] at hretired
      cases hretired <;> contradiction
  · obtain ⟨key, actor, hactor, rfl, hstate⟩ := hm.owned (hsub _ hg)
    exact ⟨key, f actor, hget.mpr ⟨actor, hactor, rfl⟩, by rw [hsession], howned actor hg hstate⟩
  · obtain ⟨actor, hactor, rfl⟩ := hget.mp h
    obtain hsame | ⟨-, hreject⟩ := hf.retired actor
    · rw [hsame] at hretired ⊢
      exact hm.rejecting hactor hretired
    · exact hreject
  · obtain ⟨actor, hactor, rfl⟩ := hget.mp h
    refine .inr ⟨actor, hactor, hsession actor, fun hretired => ?_⟩
    obtain hsame | ⟨h, -⟩ := hf.retired actor
    · rwa [hsame]
    · exact h

theorem sessionLogoff_keeps (sessionId : UInt32) (hm : InStep m) :
    InStep (sessionLogoff sessionId m).state ∧ Follows m (sessionLogoff sessionId m).state := by
  rw [sessionLogoff_state]
  refine (retires_logoff sessionId).keeps hm (fun _ h => h) (fun _ _ h => h) fun actor _ hstate => ?_
  split
  · exact .inr rfl
  · exact hstate

theorem stopAll_keeps (hm : InStep m) : InStep m.stopAll ∧ Follows m m.stopAll :=
  retires_stop.keeps hm (fun _ h => absurd h Std.ExtTreeMap.not_mem_empty) (fun _ h => nomatch h)
    fun _ h => absurd h Std.ExtTreeMap.not_mem_empty

/-! ### Runs -/

/-- One relaunch, from any monitor that came after `m`. -/
theorem relaunch_keeps (P : Primitives) (answers : ℕ → Answers) (session : EligibleSession) :
    Act.Keeps (fun t => InStep t ∧ Follows m t) (relaunch P answers session) := by
  refine .bind (.modify fun t ht => ?_) fun _ _ => .bind (.attempt (.of_state fun t ht => ?_))
    fun _ _ => .pure trivial
  · obtain ⟨hin, hfollows⟩ := discard_keeps session.generation ht.1
    exact ⟨hin, ht.2.trans hfollows⟩
  · obtain ⟨hin, hfollows⟩ :=
      sessionLogon_keeps P session.sessionId (answers session.generation) ht.1
    exact ⟨hin, ht.2.trans hfollows⟩

theorem checkHostHealth_keeps (P : Primitives) (hosts : HostStates) (hm : InStep m) :
    InStep (checkHostHealth P hosts m).state ∧ Follows m (checkHostHealth P hosts m).state := by
  have hkeeps : Act.Keeps (fun t => InStep t ∧ Follows m t) (checkHostHealth P hosts) :=
    .bind .get fun t _ => .forEach _ fun session _ => relaunch_keeps P hosts.answers session
  exact hkeeps.state ⟨hm, .refl m⟩

/-- Every call keeps the maps in step. -/
theorem apply_keeps (P : Primitives) (call : SessionCall) (hm : InStep m) :
    InStep (call.apply P m) ∧ Follows m (call.apply P m) := by
  cases call with
  | logon sessionId answers => exact sessionLogon_keeps P sessionId answers hm
  | logoff sessionId => exact sessionLogoff_keeps sessionId hm
  | checkHostHealth hosts => exact checkHostHealth_keeps P hosts hm
  | stopAll => exact stopAll_keeps hm
  | wait seconds =>
    exact ⟨⟨hm.keyed, hm.drawn, hm.distinct, hm.mounted, hm.owned, hm.rejecting, hm.vacant⟩,
      ⟨le_rfl, fun h => .inr ⟨_, h, rfl, id⟩, .inr⟩⟩

/-- Every run keeps the maps in step, and what it leaves follows what it started from. -/
theorem after_keeps (P : Primitives) (hm : InStep m) (calls : List SessionCall) :
    InStep (m.after P calls) ∧ Follows m (m.after P calls) := by
  induction calls generalizing m with
  | nil => exact ⟨hm, .refl m⟩
  | cons call calls ih =>
    obtain ⟨hin, hfollows⟩ := apply_keeps P call hm
    obtain ⟨hin', hfollows'⟩ := ih hin
    exact ⟨hin', hfollows.trans hfollows'⟩

theorem inStep_new (config : SessionConfig) (first now : ℕ) : InStep (new config first now) := by
  refine ⟨fun h => ?_, fun h => ?_, fun h => ?_, fun h => ?_, fun h => ?_, fun h => ?_, fun _ h => ?_⟩
  all_goals simp [new] at h

/-- A later actor of an old generation is the actor that had it then. -/
theorem Follows.eq_of_generation (h : Follows m m') (hm : InStep m) {key key' : ActorKey}
    {actor actor' : MountActor} (hactor : m.actors[key]? = some actor)
    (hactor' : m'.actors[key']? = some actor')
    (hgeneration : actor'.session.generation = actor.session.generation) :
    key' = key ∧ actor'.session = actor.session ∧ (actor.Retired → actor'.Retired) := by
  obtain hnew | ⟨old, hold, hsession, hretired⟩ := h.actor hactor'
  · have := hm.drawn hactor
    omega
  · rw [hsession] at hgeneration
    obtain rfl := hm.distinct hold hactor hgeneration
    obtain rfl := Option.some.inj (hold.symm.trans hactor)
    exact ⟨rfl, hsession, hretired⟩

/-- The two maps of the monitor after every run, and what every later run keeps of them. -/
theorem actors_in_step (P : Primitives) (config : SessionConfig) (first now : ℕ)
    (calls : List SessionCall) :
    let m := (new config first now).after P calls
    (∀ (key key' : ActorKey) (actor actor' : MountActor), m.actors[key]? = some actor →
      m.actors[key']? = some actor' → actor.session.generation = actor'.session.generation →
        key = key') ∧
    (∀ (key : ActorKey) (actor : MountActor), m.actors[key]? = some actor →
      actor.state = .mounted → actor.session.generation ∈ m.runtimes) ∧
    (∀ generation ∈ m.runtimes, ∃! entry : ActorKey × MountActor,
      m.actors[entry.1]? = some entry.2 ∧ entry.2.session.generation = generation) ∧
    (∀ generation ∈ m.runtimes, ∀ (key : ActorKey) (actor : MountActor),
      m.actors[key]? = some actor → actor.session.generation = generation →
        actor.state = .mounted ∨ actor.state = .draining) ∧
    (∀ launch ∈ m.launches, launch.occupied = false) ∧
    ∀ later : List SessionCall,
      let m' := m.after P later
      (∀ (key key' : ActorKey) (actor actor' : MountActor), m.actors[key]? = some actor →
        m'.actors[key']? = some actor' →
          actor'.session.generation = actor.session.generation → actor'.session = actor.session ∧
            (actor.state = .draining ∨ actor.state = .stopped → actor'.state ≠ .mounted)) ∧
      (∀ generation < m.nextGeneration, (∀ (key : ActorKey) (actor : MountActor),
        m.actors[key]? = some actor → actor.session.generation ≠ generation) →
          ∀ (key : ActorKey) (actor : MountActor), m'.actors[key]? = some actor →
            actor.session.generation ≠ generation) := by
  intro m
  have hm : InStep m := (after_keeps P (inStep_new config first now) calls).1
  refine ⟨fun _ _ _ _ h h' => hm.distinct h h', fun _ _ h => hm.mounted h, fun g hg => ?_,
    fun g hg key actor hactor hgeneration => ?_, hm.vacant, fun later => ⟨?_, ?_⟩⟩
  · obtain ⟨key, actor, hactor, hgeneration, -⟩ := hm.owned hg
    refine ⟨(key, actor), ⟨hactor, hgeneration⟩, fun entry hentry => ?_⟩
    obtain heq := hm.distinct hentry.1 hactor (hentry.2.trans hgeneration.symm)
    refine Prod.ext heq (Option.some.inj ?_)
    rw [← hentry.1, heq, hactor]
  · obtain ⟨key', actor', hactor', hgeneration', hstate⟩ := hm.owned hg
    obtain rfl := hm.distinct hactor hactor' (hgeneration.trans hgeneration'.symm)
    obtain rfl := Option.some.inj (hactor.symm.trans hactor')
    exact hstate
  · intro key key' actor actor' hactor hactor' hgeneration
    obtain ⟨-, hsession, hretired⟩ :=
      (after_keeps P hm later).2.eq_of_generation hm hactor hactor' hgeneration
    refine ⟨hsession, fun hold hmounted => ?_⟩
    have hnew := hretired hold
    rw [MountActor.Retired, hmounted] at hnew
    cases hnew <;> contradiction
  · intro generation hlt hunused key actor hactor heq
    obtain hnew | ⟨old, hold, hsession, -⟩ := (after_keeps P hm later).2.actor hactor
    · omega
    · exact hunused key old hold (hsession ▸ heq)

/-! ### Sign-out -/

/-- The runtime of a retired actor is still stored. -/
def Lingers (generation : ℕ) (m : SessionMonitor) : Prop :=
  generation ∈ m.runtimes ∧ ∃ (key : ActorKey) (actor : MountActor), m.actors[key]? = some actor ∧
    actor.session.generation = generation ∧ actor.Retired

variable {generation : ℕ}

section

variable (h : Lingers generation m)

include h

theorem Lingers.sessionLogon (hm : InStep m) (sessionId : UInt32)
    (answers : Answers) : Lingers generation (sessionLogon P sessionId answers m).state := by
  obtain ⟨hruntime, key, actor, hactor, hgeneration, hretired⟩ := h
  obtain heq | heq | ⟨session, -, heq | ⟨new, -, henters⟩⟩ :=
    sessionLogon_state P sessionId answers hm
  · rw [heq]
    exact ⟨hruntime, key, actor, hactor, hgeneration, hretired⟩
  · rw [heq]
    exact ⟨hruntime, key, actor, hactor, hgeneration, hretired⟩
  · rw [heq]
    exact ⟨hruntime, key, actor, hactor, hgeneration, hretired⟩
  · exact ⟨(henters.runtimes _).mpr (.inl hruntime), key, actor, henters.get_of_get hactor,
      hgeneration, hretired⟩

theorem Lingers.discard {other : ℕ} (hne : generation ≠ other) :
    Lingers generation (m.discard other) := by
  obtain ⟨hruntime, key, actor, hactor, rfl, hretired⟩ := h
  exact ⟨mem_runtimes_discard.mpr ⟨hruntime, hne⟩, key, actor,
    (get_discard ..).mpr ⟨hactor, hne⟩, rfl, hretired⟩

/-- The check of the hosts passes a retired actor over. -/
theorem Lingers.ne_of_mem_toRelaunch (hm : InStep m) {hosts : HostStates}
    (hsession : session ∈ m.toRelaunch hosts) : generation ≠ session.generation := by
  rintro rfl
  obtain ⟨-, key, actor, hactor, hgeneration, hretired⟩ := h
  rw [toRelaunch, List.mem_mergeSort] at hsession
  obtain ⟨stale, hstale, rfl⟩ := List.mem_map.mp hsession
  obtain ⟨hmem, hcheck⟩ := List.mem_filter.mp hstale
  obtain ⟨key', hkey'⟩ := Map.mem_values.mp hmem
  obtain rfl := hm.distinct hactor hkey' hgeneration
  obtain rfl := Option.some.inj (hactor.symm.trans hkey')
  rw [isStale, hm.rejecting hactor hretired] at hcheck
  simp at hcheck

theorem Lingers.checkHostHealth (hm : InStep m) (hosts : HostStates) :
    Lingers generation (checkHostHealth P hosts m).state := by
  have hkeeps : Act.Keeps (fun t => InStep t ∧ Lingers generation t)
      (Act.forEach (m.toRelaunch hosts) (relaunch P hosts.answers)) := by
    refine .forEach _ fun session hsession => ?_
    have hne := h.ne_of_mem_toRelaunch hm hsession
    refine .bind (.modify fun t ht => ?_) fun _ _ => .bind (.attempt (.of_state fun t ht => ?_))
      fun _ _ => .pure trivial
    · exact ⟨(discard_keeps _ ht.1).1, ht.2.discard hne⟩
    · exact ⟨(sessionLogon_keeps P _ _ ht.1).1, ht.2.sessionLogon ht.1 _ _⟩
  exact (hkeeps.state ⟨hm, h⟩).2

theorem Lingers.sessionLogoff (sessionId : UInt32) :
    Lingers generation (sessionLogoff sessionId m).state := by
  obtain ⟨hruntime, key, actor, hactor, rfl, hretired⟩ := h
  rw [sessionLogoff_state]
  refine ⟨hruntime, key, _, by rw [Std.ExtTreeMap.getElem?_map, hactor]; rfl, ?_, ?_⟩
  · rw [(retires_logoff sessionId).session]
  · obtain hsame | ⟨hnew, -⟩ := (retires_logoff sessionId).retired actor
    · simpa only [hsame] using hretired
    · exact hnew

/-- The runtime of a retired actor stays until the service stops. -/
theorem Lingers.after (hm : InStep m) {calls : List SessionCall}
    (hcalls : SessionCall.stopAll ∉ calls) : Lingers generation (m.after P calls) := by
  induction calls generalizing m with
  | nil => exact h
  | cons call calls ih =>
    rw [List.mem_cons, not_or] at hcalls
    refine ih ?_ (apply_keeps P call hm).1 hcalls.2
    cases call with
    | logon sessionId answers => exact h.sessionLogon hm sessionId answers
    | logoff sessionId => exact h.sessionLogoff sessionId
    | checkHostHealth hosts => exact h.checkHostHealth hm hosts
    | stopAll => exact absurd rfl hcalls.1
    | wait seconds => exact h

end

/-- A runtime of an old generation that is gone does not come back. -/
theorem not_mem_runtimes_after (hm : InStep m) (hlt : generation < m.nextGeneration)
    (hgone : generation ∉ m.runtimes) (calls : List SessionCall) :
    generation ∉ (m.after P calls).runtimes := by
  intro hmem
  obtain hnew | hold := (after_keeps P hm calls).2.runtime hmem
  · omega
  · exact hgone hold

/-- A stop of the service takes every runtime of an old generation away. -/
theorem not_mem_runtimes_of_stopAll (hm : InStep m) (hlt : generation < m.nextGeneration)
    {calls : List SessionCall} (hcalls : SessionCall.stopAll ∈ calls) :
    generation ∉ (m.after P calls).runtimes := by
  obtain ⟨before, later, rfl⟩ := List.append_of_mem hcalls
  obtain ⟨hin, hfollows⟩ := after_keeps P hm before
  rw [SessionMonitor.after, List.foldl_append, List.foldl_cons]
  exact not_mem_runtimes_after (stopAll_keeps hin).1 (lt_of_lt_of_le hlt hfollows.counter)
    Std.ExtTreeMap.not_mem_empty later

/-- Once the grace period after `m` has passed, no runtime is left of the actors that were mounted
for the session. -/
def UnmountedInGrace (sessionId : UInt32) (m m' : SessionMonitor) : Prop :=
  m.now + m.config.signOutGraceSeconds ≤ m'.now →
    ∀ (key : ActorKey) (actor : MountActor), m.actors[key]? = some actor →
      actor.session.sessionId = sessionId → actor.state = .mounted →
        actor.session.generation ∉ m'.runtimes

/-- After a sign-out and the grace period, the runtimes of the session are gone exactly when the
service has been stopped since: no number of host checks removes them. -/
theorem signed_out_runtime_gone_iff (P : Primitives) (config : SessionConfig) (first now : ℕ)
    (before later : List SessionCall) (sessionId : UInt32) (key : ActorKey) (actor : MountActor)
    (hactor : ((new config first now).after P before).actors[key]? = some actor)
    (hsession : actor.session.sessionId = sessionId) (hmounted : actor.state = .mounted)
    (helapsed : ((new config first now).after P before).now +
        ((new config first now).after P before).config.signOutGraceSeconds ≤
      (((new config first now).after P before).after P (.logoff sessionId :: later)).now) :
    UnmountedInGrace sessionId ((new config first now).after P before)
      (((new config first now).after P before).after P (.logoff sessionId :: later)) ↔
        SessionCall.stopAll ∈ later := by
  have hm := (after_keeps P (inStep_new config first now) before).1
  generalize (new config first now).after P before = m at *
  obtain ⟨hout, hfollows⟩ := sessionLogoff_keeps sessionId hm
  constructor
  · intro hunmounted
    by_contra hstop
    refine hunmounted helapsed key actor hactor hsession hmounted ?_
    -- The logoff drains the actor; its runtime stays from there on.
    have hlingers : Lingers actor.session.generation (SessionMonitor.sessionLogoff sessionId m).state := by
      rw [sessionLogoff_state]
      refine ⟨hm.mounted hactor hmounted, key, actor.beginDrain, ?_, rfl, .inl rfl⟩
      rw [Std.ExtTreeMap.getElem?_map, hactor, Option.map_some, if_pos hsession]
    exact (hlingers.after hout hstop).1
  · intro hstop _ key' actor' hactor' _ _
    exact not_mem_runtimes_of_stopAll hout
      (lt_of_lt_of_le (hm.drawn hactor') hfollows.counter) hstop

/-- A user with a token, a store key and a host that mounts `P:`. -/
def mountingAnswers : Answers where
  primaryToken := some ⟨"S-1-5-21-1001".toList, by decide, by decide⟩
  pipeNonce := "00".toList
  createPipe := true
  loadStoreKey := some ⟨List.replicate 32 1, rfl⟩
  launch := .ok 4242
  authenticate := some 'P'

/-- The actor under session 1 of a monitor that has mounted it. -/
def mountedKey : ActorKey := ⟨1, ⟨"S-1-5-21-1001".toList, by decide, by decide⟩⟩

/-- A monitor with a grace period of 30 seconds that has mounted session 1. -/
def mountedMonitor : SessionMonitor :=
  (new ⟨30⟩ 1 0).after .plain [.logon 1 mountingAnswers]

/-- The actor of session 1, mounted by process 4242. -/
def mountedActor : MountActor :=
  (MountActor.new ⟨1, mountedKey.userSid, ⟨"sid-".toList, by decide, by decide⟩, 1⟩).setMounted
    'P' 4242

theorem signed_out_runtime_gone_stopped :
    UnmountedInGrace 1 mountedMonitor
      (mountedMonitor.after .plain [.logoff 1, .wait 30, .stopAll]) :=
  (signed_out_runtime_gone_iff .plain ⟨30⟩ 1 0 [.logon 1 mountingAnswers] [.wait 30, .stopAll] 1
    mountedKey mountedActor (by decide +kernel) rfl rfl (by decide +kernel)).mpr (by simp)

/-- An hour after the sign-out, with a host check that finds every host exited, the runtime of the
session is still there. -/
theorem signed_out_runtime_remains :
    ¬UnmountedInGrace 1 mountedMonitor (mountedMonitor.after .plain
      [.logoff 1, .wait 3600, .checkHostHealth ⟨fun _ => true, id, fun _ => mountingAnswers⟩]) :=
  fun h => h (by decide +kernel) mountedKey mountedActor (by decide +kernel) rfl rfl
    (by decide +kernel)

/-! ### Retrying a failed logon -/

/-- Nothing answers for the session and SID: the next logon is a new attempt. -/
structure Retryable (P : Primitives) (sessionId : UInt32) (sid : UserSid) (m : SessionMonitor) :
    Prop where
  vacant : m.actors[(⟨sessionId, sid⟩ : ActorKey)]? = none
  attempts : ∀ answers : Answers, answers.primaryToken = some sid →
    sessionLogon P sessionId answers m = mountSession P sessionId sid answers m

variable {sessionId : UInt32} {sid : UserSid}

theorem retryable_iff :
    Retryable P sessionId sid m ↔ m.actors[(⟨sessionId, sid⟩ : ActorKey)]? = none := by
  refine ⟨Retryable.vacant, fun h => ⟨h, fun answers htoken => ?_⟩⟩
  unfold SessionMonitor.sessionLogon
  rw [htoken, bind_of_ok (ofOption_some_apply ..), bind_of_ok (get_apply _), h]

/-- The host of the session was launched and its handshake failed. -/
def FailsHandshake (P : Primitives) (sessionId : UInt32) (sid : UserSid) (answers : Answers)
    (m : SessionMonitor) : Prop :=
  ∃ session, session.sessionId = sessionId ∧ session.userSid = sid ∧
    ReachesLauncher P m answers session ∧ (∃ pid, answers.launch = .ok pid) ∧
      answers.authenticate = none

/-- A failed handshake leaves a failed actor under the session and SID. -/
theorem get_of_failsHandshake (h : FailsHandshake P sessionId sid answers m) : ∃ actor : MountActor,
    (sessionLogon P sessionId answers m).state.actors[(⟨sessionId, sid⟩ : ActorKey)]? = some actor ∧
      actor.state = .failed := by
  obtain ⟨session, rfl, rfl, hreached, ⟨pid, hlaunch⟩, hauth⟩ := h
  refine ⟨(MountActor.new session).setFailed .pipeAuthFailed, ?_, rfl⟩
  rw [(retryable_iff.mpr hreached.vacant).attempts answers hreached.token,
    mountSession_of_reachesLauncher hreached, hlaunch, hauth]
  exact Map.get_insert_self

/-- A logon that fails, with no actor in its way, leaves one exactly when the handshake failed. -/
theorem retryable_of_err
    {error : SessionError} (hvacant : m.actors[(⟨sessionId, sid⟩ : ActorKey)]? = none)
    (herr : sessionLogon P sessionId answers m = .err error m') :
    Retryable P sessionId sid m' ↔ ¬FailsHandshake P sessionId sid answers m := by
  rw [retryable_iff]
  refine ⟨fun hleft hfails => ?_, fun hpasses => ?_⟩
  · obtain ⟨actor, hactor, -⟩ := get_of_failsHandshake hfails
    rw [herr, Outcome.state_err, hleft] at hactor
    cases hactor
  · have hends := logonEnds_sessionLogon P sessionId answers m
    rw [herr] at hends
    cases hends with
    | rejected _ => exact hvacant
    | unprepared _ => exact hvacant
    | unlaunched session _ hreached hid hfailed => exact hvacant
    | unauthenticated session pid hreached hid hlaunched hfailed =>
      have hne : session.userSid ≠ sid := fun heq =>
        hpasses ⟨session, hid, heq, hreached, ⟨pid, hlaunched⟩, hfailed⟩
      rw [record, Map.get_insert_of_ne]
      · exact hvacant
      · intro heq
        exact hne (congrArg ActorKey.userSid heq).symm

/-- A logon that fails, called directly or to relaunch a host that has exited, can be retried
exactly when it did not fail in the handshake of a launched host. -/
theorem failed_logon_retryable_iff (P : Primitives) (sessionId : UInt32) (sid : UserSid)
    (m m' : SessionMonitor) (error : SessionError) :
    (∀ answers, m.actors[(⟨sessionId, sid⟩ : ActorKey)]? = none →
      sessionLogon P sessionId answers m = .err error m' →
        (Retryable P sessionId sid m' ↔ ¬FailsHandshake P sessionId sid answers m)) ∧
    ∀ answers session, session.sessionId = sessionId →
      (m.discard session.generation).actors[(⟨sessionId, sid⟩ : ActorKey)]? = none →
      sessionLogon P sessionId (answers session.generation) (m.discard session.generation) =
          .err error m' →
        relaunch P answers session m = .ok () m' ∧
          (Retryable P sessionId sid m' ↔
            ¬FailsHandshake P sessionId sid (answers session.generation)
              (m.discard session.generation)) := by
  refine ⟨fun answers hvacant herr => retryable_of_err hvacant herr, ?_⟩
  rintro answers session rfl hvacant herr
  refine ⟨?_, retryable_of_err hvacant herr⟩
  unfold relaunch
  rw [bind_of_ok (modify_apply ..), bind_apply, attempt_apply, herr]
  rfl

/-- The launcher fails: the logon can be retried. -/
theorem failed_launch_retryable :
    Retryable .plain 1 mountedKey.userSid (sessionLogon .plain 1
      { mountingAnswers with launch := .error .hostUnavailable } (new ⟨30⟩ 1 0)).state :=
  ((failed_logon_retryable_iff .plain 1 mountedKey.userSid (new ⟨30⟩ 1 0) _ .hostUnavailable).1
    { mountingAnswers with launch := .error .hostUnavailable } (by decide +kernel)
    (Outcome.eq_err (by decide +kernel))).mpr fun ⟨_, _, _, _, ⟨_, hlaunch⟩, _⟩ => nomatch hlaunch

/-- A monitor whose first handshake for session 1 has failed. -/
def refusedMonitor : SessionMonitor :=
  (sessionLogon .plain 1 { mountingAnswers with authenticate := none } (new ⟨30⟩ 1 0)).state

/-- The handshake fails, and the next logon returns the failed actor as a success, without a
launch. -/
theorem failed_handshake_blocks :
    (sessionLogon .plain 1 { mountingAnswers with authenticate := none } (new ⟨30⟩ 1 0)).result? =
        some (.error .pipeUnavailable) ∧
      ((sessionLogon .plain 1 mountingAnswers refusedMonitor).result?.map
        (·.map MountActor.state)) = some (.ok .failed) ∧
      (sessionLogon .plain 1 mountingAnswers refusedMonitor).state.launches =
        refusedMonitor.launches ∧
      ¬Retryable .plain 1 mountedKey.userSid refusedMonitor :=
  ⟨by decide +kernel, by decide +kernel, by decide +kernel, fun h => by
    have hvacant := h.vacant
    revert hvacant
    decide +kernel⟩

end SessionMonitor

end Wdlp
