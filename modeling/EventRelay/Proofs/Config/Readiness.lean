import EventRelay.Pipeline
import EventRelay.Proofs.Json.Texts

/-!
# What validation makes sure of

Values are admitted in one place and used in others: the queue raises sizes that are too small, the
slot refuses a blank tracker id, the retry policy makes one attempt at least, and permits beyond a
bound are a crash.  For a configuration without violations all of these change nothing and refuse
nothing, with one exception: the number of permits has no upper bound in validation, so a queue that
is asked for more than `Pipeline.mostPermits` of them crashes while the tracker is built
(`Tracker.build_of_valid`, `Tracker.valid_configuration_crashes`).
-/

namespace EventRelay

/-! ## What has been checked -/

namespace Config

@[simp]
theorem violationIf_eq_nil {condition : Bool} {v : Violation} :
    violationIf condition v = [] ↔ condition = false := by
  cases condition <;> simp [violationIf]

theorem Settings.violations_eq_nil {s : Settings} {dataDirectory : Option String} :
    s.violations dataDirectory = [] ↔
      s.tracker.violations = [] ∧ s.queue.violations dataDirectory = [] ∧
        s.retry.violations = [] ∧ s.logging.violations = [] := by
  simp [Settings.violations]

theorem TrackerSettings.named_of_valid {s : TrackerSettings} (h : s.violations = []) :
    Text.isBlankText s.trackerId = false := by
  simp only [TrackerSettings.violations, List.append_eq_nil_iff, violationIf_eq_nil] at h
  exact h.1.1

namespace QueueSettings

variable {s : QueueSettings} {dataDirectory : Option String}

theorem sizes_of_valid (h : s.violations dataDirectory = []) :
    1 ≤ s.batchSize ∧ 1 ≤ s.concurrency := by
  simp only [QueueSettings.violations, List.append_eq_nil_iff, violationIf_eq_nil,
    beq_eq_false_iff_ne, ne_eq] at h
  omega

theorem place_of_valid (h : s.violations dataDirectory = []) (hstore : s.store = .persistent) :
    ∃ path, s.place? dataDirectory = some path := by
  simp only [QueueSettings.violations, List.append_eq_nil_iff, violationIf_eq_nil] at h
  have hplace := h.2
  rw [hstore, Bool.and_eq_false_iff] at hplace
  rcases hplace with hne | hsome
  · cases hne
  · exact Option.isSome_iff_exists.1 (by simpa using hsome)

end QueueSettings

theorem RetrySettings.attempts_of_valid {s : RetrySettings} (h : s.violations = []) :
    1 ≤ s.maxAttempts := by
  simp only [RetrySettings.violations, List.append_eq_nil_iff, violationIf_eq_nil,
    beq_eq_false_iff_ne, ne_eq] at h
  omega

/-- The policy makes as many attempts as are configured. -/
theorem RetrySettings.attemptsAllowed_of_valid {s : RetrySettings} (h : s.violations = []) :
    s.policy.attemptsAllowed = s.maxAttempts :=
  Nat.max_eq_left (attempts_of_valid h)

/-- The queue works as configured. -/
theorem QueueSettings.normalized_of_valid {s : QueueSettings} {dataDirectory : Option String}
    (h : s.violations dataDirectory = []) : s.delivery.normalized = s.delivery := by
  obtain ⟨hbatch, hpermits⟩ := sizes_of_valid h
  simp only [delivery, Queue.Settings.normalized, Nat.max_eq_left hbatch, Nat.max_eq_left hpermits]

end Config

/-! ## What is built -/

namespace Pipeline

variable {s : Config.Settings} {place : Place}

theorem makeQueue_of_le {settings : Queue.Settings} (h : settings.normalized.concurrency ≤ mostPermits)
    (store : Store) : makeQueue settings store = .ok (.ofStore settings store) :=
  if_pos h

theorem makeQueue_of_lt {settings : Queue.Settings} (h : mostPermits < settings.normalized.concurrency)
    (store : Store) : makeQueue settings store = .error .tooManyPermits :=
  if_neg (Nat.not_le.2 h)

/-- The slot of a valid configuration can be opened in every database. -/
theorem load_of_valid (hvalid : s.violations place.dataDirectory = []) (db : Store.Database) :
    Store.Slot.load db s.tracker.trackerId =
      .ok ⟨Store.Slot.nameOf s.tracker.trackerId,
        Store.Slot.stored db (Store.Slot.nameOf s.tracker.trackerId)⟩ := by
  have hnamed := Config.TrackerSettings.named_of_valid (Config.Settings.violations_eq_nil.1 hvalid).1
  rw [Store.Slot.load, hnamed, if_neg Bool.false_ne_true]

/-- The database of a valid configuration is opened, unless a file is in the way. -/
theorem openStore_of_free (hvalid : s.violations place.dataDirectory = []) {path : String}
    (hstore : s.queue.store = .persistent)
    (hpath : s.queue.place? place.dataDirectory = some path)
    (hfree : place.disk.isBlocked path = false) :
    ∃ opened, openStore s place = .ok opened := by
  have hdisk : place.disk.database path = .ok ((place.disk.databases.lookup path).getD {}) := by
    rw [Store.Disk.database, hfree, if_neg Bool.false_ne_true]
  simp only [openStore, hstore, hpath, openSlot]
  rw [Json.bind_ok hdisk, Json.bind_ok (load_of_valid hvalid _)]
  exact ⟨_, rfl⟩

theorem blocked_of_openStore (hvalid : s.violations place.dataDirectory = []) {e : StorageError}
    (h : openStore s place = .error e) :
    ∃ path, s.queue.store = .persistent ∧ s.queue.place? place.dataDirectory = some path ∧
      place.disk.isBlocked path = true := by
  cases hstore : s.queue.store with
  | memory =>
    simp only [openStore, hstore] at h
    cases h
  | persistent =>
    obtain ⟨path, hpath⟩ := Config.QueueSettings.place_of_valid
      (Config.Settings.violations_eq_nil.1 hvalid).2.1 hstore
    refine ⟨path, rfl, hpath, ?_⟩
    cases hblocked : place.disk.isBlocked path with
    | true => rfl
    | false =>
      obtain ⟨opened, hopen⟩ := openStore_of_free hvalid hstore hpath hblocked
      rw [hopen] at h
      cases h

end Pipeline

namespace Tracker

/-- What building a tracker comes to.  Without a collector there is no queue; with one the store is
opened first, and the number of permits decides last. -/
inductive Outcome (s : Config.Settings) (place : Pipeline.Place) : Except BuildError Built → Prop
    where
  /-- There is no collector. -/
  | bare {built : Built} (alone : s.tracker.endpoint = none) (none : built.depot = none) :
      Outcome s place (.ok built)
  /-- The store cannot be opened. -/
  | unopened {endpoint : String} {e : StorageError} (collector : s.tracker.endpoint = some endpoint)
      (failed : Pipeline.openStore s place = .error e) :
      Outcome s place (.error (.refused (.storage e)))
  /-- There cannot be as many permits. -/
  | crashed {endpoint : String} {opened : Store × List Log.Line}
      (collector : s.tracker.endpoint = some endpoint)
      (found : Pipeline.openStore s place = .ok opened)
      (many : Pipeline.mostPermits < s.queue.concurrency) :
      Outcome s place (.error .tooManyPermits)
  /-- There is a queue. -/
  | queued {endpoint : String} {opened : Store × List Log.Line} {built : Built}
      (collector : s.tracker.endpoint = some endpoint)
      (found : Pipeline.openStore s place = .ok opened)
      (enough : s.queue.concurrency ≤ Pipeline.mostPermits)
      (depot : built.depot = some ⟨.ofStore s.queue.delivery opened.1,
        .retry 0 s.retry.policy (.switch [.http 0 endpoint])⟩) :
      Outcome s place (.ok built)

variable {s : Config.Settings} {place : Pipeline.Place}

theorem outcome_of_valid (hvalid : s.violations place.dataDirectory = []) :
    Outcome s place (build s place) := by
  have hqueue := (Config.Settings.violations_eq_nil.1 hvalid).2.1
  have hpermits : s.queue.delivery.normalized.concurrency = s.queue.concurrency := by
    rw [Config.QueueSettings.normalized_of_valid hqueue]
    rfl
  simp only [build, hvalid]
  cases hendpoint : s.tracker.endpoint with
  | none =>
    simp only [Pipeline.build, Pipeline.delivery?, hendpoint, Option.map_none]
    exact .bare hendpoint rfl
  | some endpoint =>
    simp only [Pipeline.build, Pipeline.delivery?, hendpoint, Option.map_some]
    cases hopen : Pipeline.openStore s place with
    | error e => exact .unopened hendpoint hopen
    | ok opened =>
      obtain ⟨store, lines⟩ := opened
      dsimp only
      by_cases henough : s.queue.concurrency ≤ Pipeline.mostPermits
      · rw [Pipeline.makeQueue_of_le (by rwa [hpermits])]
        exact .queued hendpoint hopen henough rfl
      · have hmany := Nat.not_le.1 henough
        rw [Pipeline.makeQueue_of_lt (by rwa [hpermits])]
        exact .crashed hendpoint hopen hmany

theorem crashes_iff_of_valid (hvalid : s.violations place.dataDirectory = []) :
    build s place = .error .tooManyPermits ↔
      s.tracker.endpoint.isSome = true ∧ (∃ opened, Pipeline.openStore s place = .ok opened) ∧
        Pipeline.mostPermits < s.queue.concurrency := by
  have houtcome := outcome_of_valid hvalid
  constructor
  · intro hcrash
    rw [hcrash] at houtcome
    cases houtcome with
    | crashed collector found many => exact ⟨by rw [collector]; rfl, ⟨_, found⟩, many⟩
  · rintro ⟨hcollector, ⟨opened, hopen⟩, hmany⟩
    generalize build s place = result at houtcome ⊢
    cases houtcome with
    | bare alone => rw [alone] at hcollector; cases hcollector
    | unopened _ failed => rw [failed] at hopen; cases hopen
    | crashed => rfl
    | queued _ _ enough => exact absurd enough (Nat.not_le.2 hmany)

/-- With a collector, an open store and no more permits than there can be, there is a queue. -/
theorem queued_of_valid (hvalid : s.violations place.dataDirectory = []) {endpoint : String}
    (hcollector : s.tracker.endpoint = some endpoint) {opened : Store × List Log.Line}
    (hopen : Pipeline.openStore s place = .ok opened)
    (henough : s.queue.concurrency ≤ Pipeline.mostPermits) :
    ∃ built depot, build s place = .ok built ∧ built.depot = some depot := by
  have houtcome := outcome_of_valid hvalid
  generalize build s place = result at houtcome ⊢
  cases houtcome with
  | bare alone => rw [alone] at hcollector; cases hcollector
  | unopened _ failed => rw [failed] at hopen; cases hopen
  | crashed _ _ many => exact absurd many (Nat.not_lt.2 henough)
  | queued _ _ _ depot => exact ⟨_, _, rfl, depot⟩

/-- **What a valid configuration is built into**, on a machine that can make a client for web requests
(see `Pipeline.delivery?`).

It crashes exactly if there is a collector, the store can be opened and more permits are configured
than there can be; it is refused only if a file is in the way of the database.  The queue that is
built has the configured batch size, batch delay and concurrency, and delivers with the configured
policy, which makes as many attempts as are configured.  A persistent store has a place, and its slot
can be opened in every database. -/
theorem build_of_valid (hvalid : s.violations place.dataDirectory = []) :
    (build s place = .error .tooManyPermits ↔
      s.tracker.endpoint.isSome = true ∧ (∃ opened, Pipeline.openStore s place = .ok opened) ∧
        Pipeline.mostPermits < s.queue.concurrency) ∧
    (∀ e, build s place = .error (.refused e) →
      ∃ path, s.queue.store = .persistent ∧ s.queue.place? place.dataDirectory = some path ∧
        place.disk.isBlocked path = true) ∧
    (∀ built depot, build s place = .ok built → built.depot = some depot →
      depot.queue.settings =
        { batchSize := s.queue.batchSize, batchDelay := s.queue.batchDelay
          concurrency := s.queue.concurrency } ∧
      ∃ way, depot.delivery = .retry 0 s.retry.policy way) ∧
    s.retry.policy.attemptsAllowed = s.retry.maxAttempts ∧
    (s.queue.store = .persistent →
      ∃ path, s.queue.place? place.dataDirectory = some path ∧
        ∀ db, ∃ slot, Store.Slot.load db s.tracker.trackerId = .ok slot) := by
  obtain ⟨-, hqueue, hretry, -⟩ := Config.Settings.violations_eq_nil.1 hvalid
  have houtcome := outcome_of_valid hvalid
  refine ⟨crashes_iff_of_valid hvalid, ?refused, ?built,
    Config.RetrySettings.attemptsAllowed_of_valid hretry, ?opened⟩
  case refused =>
    intro e he
    rw [he] at houtcome
    cases houtcome with
    | unopened _ failed => exact Pipeline.blocked_of_openStore hvalid failed
  case built =>
    intro built depot hbuilt hdepot
    rw [hbuilt] at houtcome
    cases houtcome with
    | bare _ hnone =>
      rw [hnone] at hdepot
      cases hdepot
    | queued _ _ _ hsome =>
      rw [hsome] at hdepot
      cases hdepot
      exact ⟨Config.QueueSettings.normalized_of_valid hqueue, _, rfl⟩
  case opened =>
    intro hstore
    obtain ⟨path, hpath⟩ := Config.QueueSettings.place_of_valid hqueue hstore
    exact ⟨path, hpath, fun db => ⟨_, Pipeline.load_of_valid hvalid db⟩⟩

/-- A configuration with a collector, the rest of it as by default. -/
def collecting (queue : Config.QueueSettings) : Config.Settings where
  tracker := { endpoint := some "http://127.0.0.1:9/collector" }
  queue := queue

theorem collecting_valid {queue : Config.QueueSettings} {dataDirectory : Option String}
    (h : queue.violations dataDirectory = []) :
    (collecting queue).violations dataDirectory = [] := by
  have htracker : Config.TrackerSettings.violations
      { endpoint := some "http://127.0.0.1:9/collector" } = [] := by decide +kernel
  have hretry : Config.RetrySettings.violations {} = [] := by decide +kernel
  have hlogging : Config.LoggingSettings.violations {} = [] := by decide
  exact Config.Settings.violations_eq_nil.2 ⟨htracker, h, hretry, hlogging⟩

/-- An empty disk, and no data directory. -/
def emptyPlace : Pipeline.Place where
  dataDirectory := none

/-- A queue in a database, with the default sizes: it is built with them and makes ten attempts. -/
theorem build_of_valid_persistent :
    let s := collecting { store := .persistent, storePath := some "queue" }
    s.violations emptyPlace.dataDirectory = [] ∧
    ∃ built depot, build s emptyPlace = .ok built ∧ built.depot = some depot ∧
      depot.queue.settings = { batchSize := 10, batchDelay := 1000, concurrency := 4 } ∧
      (∃ way, depot.delivery = .retry 0 s.retry.policy way) ∧
      s.retry.policy.attemptsAllowed = 10 := by
  intro s
  have hvalid : s.violations emptyPlace.dataDirectory = [] := collecting_valid (by decide)
  obtain ⟨opened, hopen⟩ := Pipeline.openStore_of_free hvalid rfl rfl rfl
  obtain ⟨built, depot, hbuilt, hdepot⟩ := queued_of_valid hvalid rfl hopen (by decide)
  obtain ⟨-, -, hdepots, hattempts, -⟩ := build_of_valid hvalid
  obtain ⟨hsettings, hdelivery⟩ := hdepots built depot hbuilt hdepot
  exact ⟨hvalid, built, depot, hbuilt, hdepot, hsettings, hdelivery, hattempts⟩

/-- **Validation admits what cannot be built**: one permit more than there can be is no violation,
and building the tracker crashes. -/
theorem valid_configuration_crashes :
    let s := collecting { concurrency := 2305843009213693952 }
    s.violations emptyPlace.dataDirectory = [] ∧ build s emptyPlace = .error .tooManyPermits := by
  intro s
  have hvalid : s.violations emptyPlace.dataDirectory = [] := collecting_valid (by decide)
  exact ⟨hvalid, (crashes_iff_of_valid hvalid).2 ⟨rfl, ⟨_, rfl⟩, by decide⟩⟩

end Tracker

end EventRelay
