import Sekas.Engine

/-! The catalog calls of the root: `create_database`, `delete_database`, `create_collection`
(with `do_create_collection`) and `delete_collection`. Each is a chain of awaits on the
schema and the job queue, any of which may fail; the schema and the jobs live outside this
file, so every answer they give is an outcome the call is given, and a call's writes are
what its successful awaits did. The watchers' notifications are kept as a log. -/
namespace Sekas.Root
open Sekas.Engine

/-- The fields of `DatabaseDesc` that the calls read. -/
structure DatabaseDesc where
  id : UInt64
  name : String
  deriving DecidableEq, Repr

/-- The fields of `CollectionDesc` that the calls read. -/
structure CollectionDesc where
  id : UInt64
  name : String
  db : UInt64
  deriving DecidableEq, Repr

/-- `ShardDesc`, without its range, which is always `SHARD_MIN..SHARD_MAX` here. -/
structure ShardDesc where
  id : UInt64
  collectionId : UInt64
  deriving DecidableEq, Repr

inductive CatalogJob where
  | createCollection (database : UInt64) (collectionName : String) (waitCreate : List ShardDesc)
      (desc : CollectionDesc)
  | purgeDatabase (databaseId : UInt64) (databaseName : String)
  | purgeCollection (databaseId collectionId : UInt64) (databaseName collectionName : String)
  deriving DecidableEq, Repr

/-- The `UpdateEvent`s and `DeleteEvent`s the calls hand to the watcher hub. -/
inductive CatalogEvent where
  | updateDatabase (desc : DatabaseDesc)
  | updateCollection (desc : CollectionDesc)
  | deleteDatabase (id : UInt64)
  | deleteCollection (id : UInt64)
  deriving DecidableEq, Repr

/-- The errors of the calls: those `Engine` models, and `Error::DatabaseNotFound`. -/
inductive CatalogError where
  | of (err : Error)
  | databaseNotFound (name : String)
  deriving DecidableEq, Repr

/-- `sekas_schema::system::db::ID` and `sekas_schema::FIRST_USER_COLLECTION_ID`, whose values
are not under src/. -/
structure SystemIds where
  db : UInt64
  firstUserCollection : UInt64

structure Catalog where
  databases : List DatabaseDesc
  collections : List CollectionDesc
  jobs : List CatalogJob
  events : List CatalogEvent
  deriving DecidableEq, Repr

structure CatalogOutcomes where
  schema : Except Error Unit
  schemaAgain : Except Error Unit
  getDatabase : Except Error Unit
  getCollection : Except Error Unit
  createDatabase : Except Error UInt64
  prepareCreateCollection : Except Error UInt64
  nextShardId : Except Error UInt64
  submit : Except Error Unit
  deleteDatabase : Except Error Unit
  deleteCollection : Except Error Unit

namespace Catalog

/-- `Schema::get_database`. -/
def lookupDatabase (cat : Catalog) (name : String) : Option DatabaseDesc :=
  cat.databases.find? (·.name == name)

/-- `Schema::get_collection`. -/
def lookupCollection (cat : Catalog) (db : UInt64) (name : String) : Option CollectionDesc :=
  cat.collections.find? fun c => c.db == db && c.name == name

def finish (cat : Catalog) : CatalogJob → Catalog
  | .createCollection _ _ _ desc => { cat with collections := cat.collections ++ [desc] }
  | _ => cat

def notify (cat : Catalog) (e : CatalogEvent) : Catalog := { cat with events := cat.events ++ [e] }

end Catalog

def lift (r : Except Error α) (cat : Catalog) : Except CatalogError α × Catalog :=
  (r.mapError .of, cat)

/-- `Jobs::submit`: the job is queued, and when the caller waits, it has finished. -/
def submit (o : CatalogOutcomes) (job : CatalogJob) (wait : Bool) (cat : Catalog) :
    Except CatalogError Unit × Catalog :=
  match o.submit with
  | .error err => (.error (.of err), cat)
  | .ok () =>
    let cat := { cat with jobs := cat.jobs ++ [job] }
    (.ok (), if wait then cat.finish job else cat)

/-- `Schema::delete_database`, which answers the id it dropped. -/
def dropDatabase (o : CatalogOutcomes) (db : DatabaseDesc) (cat : Catalog) :
    Except CatalogError UInt64 × Catalog :=
  match o.deleteDatabase with
  | .error err => (.error (.of err), cat)
  | .ok () => (.ok db.id, { cat with databases := cat.databases.filter (·.id != db.id) })

/-- `Schema::delete_collection`. -/
def dropCollection (o : CatalogOutcomes) (collection : CollectionDesc) (cat : Catalog) :
    Except CatalogError Unit × Catalog :=
  match o.deleteCollection with
  | .error err => (.error (.of err), cat)
  | .ok () => (.ok (), { cat with collections := cat.collections.filter (·.id != collection.id) })

/-- `Root::create_database`. -/
def createDatabase (o : CatalogOutcomes) (name : String) (cat : Catalog) :
    Except CatalogError DatabaseDesc × Catalog :=
  andThen (lift o.schema cat) fun () cat =>
  andThen (lift o.createDatabase cat) fun id cat =>
  let desc : DatabaseDesc := ⟨id, name⟩
  (.ok desc, ({ cat with databases := cat.databases ++ [desc] }).notify (.updateDatabase desc))

/-- `Root::delete_database`: `get_database` (with its own `schema()`), the checks, the purge
job, a second `schema()`, the schema's delete, then the watchers. -/
def deleteDatabase (ids : SystemIds) (o : CatalogOutcomes) (name : String) (cat : Catalog) :
    Except CatalogError Unit × Catalog :=
  andThen (lift o.schema cat) fun () cat =>
  andThen (lift o.getDatabase cat) fun () cat =>
  match cat.lookupDatabase name with
  | none => (.error (.databaseNotFound name), cat)
  | some db =>
    if db.id = ids.db then
      (.error (.of (.invalidArgument "not support delete system database")), cat)
    else
      andThen (submit o (.purgeDatabase db.id db.name) false cat) fun () cat =>
      andThen (lift o.schemaAgain cat) fun () cat =>
      andThen (dropDatabase o db cat) fun id cat =>
      (.ok (), cat.notify (.deleteDatabase id))

/-- `Root::do_create_collection`: one shard over the whole key range, in a job the call waits
for. -/
def doCreateCollection (o : CatalogOutcomes) (collection : CollectionDesc) (cat : Catalog) :
    Except CatalogError Unit × Catalog :=
  andThen (lift o.nextShardId cat) fun id cat =>
  let waitCreate : List ShardDesc := [⟨id, collection.id⟩]
  submit o (.createCollection collection.db collection.name waitCreate collection) true cat

/-- `Root::create_collection`. -/
def createCollection (o : CatalogOutcomes) (name database : String) (cat : Catalog) :
    Except CatalogError CollectionDesc × Catalog :=
  andThen (lift o.schema cat) fun () cat =>
  andThen (lift o.getDatabase cat) fun () cat =>
  match cat.lookupDatabase database with
  | none => (.error (.databaseNotFound database), cat)
  | some db =>
    andThen (lift o.prepareCreateCollection cat) fun id cat =>
    let collection : CollectionDesc := ⟨id, name, db.id⟩
    andThen (doCreateCollection o collection cat) fun () cat =>
    (.ok collection, cat.notify (.updateCollection collection))

/-- `Root::delete_collection`; a collection that is not there is no error. -/
def deleteCollection (ids : SystemIds) (o : CatalogOutcomes) (name : String)
    (database : DatabaseDesc) (cat : Catalog) : Except CatalogError Unit × Catalog :=
  andThen (lift o.schema cat) fun () cat =>
  andThen (lift o.schemaAgain cat) fun () cat =>
  andThen (lift o.getDatabase cat) fun () cat =>
  match cat.lookupDatabase database.name with
  | none => (.error (.databaseNotFound database.name), cat)
  | some db =>
    andThen (lift o.getCollection cat) fun () cat =>
    match cat.lookupCollection db.id name with
    | none => (.ok (), cat)
    | some collection =>
      if collection.id < ids.firstUserCollection then
        (.error (.of (.invalidArgument "unsupported delete system collection")), cat)
      else
        andThen (submit o (.purgeCollection db.id collection.id db.name collection.name) false cat)
          fun () cat =>
        andThen (dropCollection o collection cat) fun () cat =>
        (.ok (), cat.notify (.deleteCollection collection.id))

inductive CatalogCall where
  | createDatabase (name : String)
  | deleteDatabase (name : String)
  | createCollection (name database : String)
  | deleteCollection (name : String) (database : DatabaseDesc)
  deriving DecidableEq, Repr

def CatalogCall.step (ids : SystemIds) (o : CatalogOutcomes) (cat : Catalog) :
    CatalogCall → Except CatalogError Unit × Catalog
  | .createDatabase name => let r := Root.createDatabase o name cat; (r.1.map fun _ => (), r.2)
  | .deleteDatabase name => Root.deleteDatabase ids o name cat
  | .createCollection name database =>
    let r := Root.createCollection o name database cat; (r.1.map fun _ => (), r.2)
  | .deleteCollection name database => Root.deleteCollection ids o name database cat

def CatalogCall.run (ids : SystemIds) (cat : Catalog) :
    List (CatalogCall × CatalogOutcomes) → Catalog
  | [] => cat
  | (call, o) :: calls => run ids (call.step ids o cat).2 calls

def CatalogJob.purgesSystem (ids : SystemIds) : CatalogJob → Bool
  | .purgeDatabase id _ => id == ids.db
  | .purgeCollection _ id _ _ => decide (id < ids.firstUserCollection)
  | .createCollection .. => false

def CatalogEvent.deletesSystem (ids : SystemIds) : CatalogEvent → Bool
  | .deleteDatabase id => id == ids.db
  | .deleteCollection id => decide (id < ids.firstUserCollection)
  | _ => false

theorem appendOnly_trans {l l₁ l₂ : List α} {p : α → Bool}
    (h₁ : ∃ new, l₁ = l ++ new ∧ ∀ x ∈ new, p x = false)
    (h₂ : ∃ new, l₂ = l₁ ++ new ∧ ∀ x ∈ new, p x = false) :
    ∃ new, l₂ = l ++ new ∧ ∀ x ∈ new, p x = false := by
  obtain ⟨n₁, rfl, p₁⟩ := h₁
  obtain ⟨n₂, rfl, p₂⟩ := h₂
  exact ⟨n₁ ++ n₂, List.append_assoc _ _ _, fun x hx => (List.mem_append.mp hx).elim (p₁ x) (p₂ x)⟩

structure SystemKept (ids : SystemIds) (cat cat' : Catalog) : Prop where
  databases : ∀ db ∈ cat.databases, db.id = ids.db → db ∈ cat'.databases
  collections : ∀ c ∈ cat.collections, c.id < ids.firstUserCollection → c ∈ cat'.collections
  jobs : ∃ new, cat'.jobs = cat.jobs ++ new ∧ ∀ job ∈ new, job.purgesSystem ids = false
  events : ∃ new, cat'.events = cat.events ++ new ∧ ∀ e ∈ new, e.deletesSystem ids = false

namespace SystemKept
variable {ids : SystemIds} {cat cat' cat₁ cat₂ : Catalog}

theorem schemaOnly (hdb : ∀ db ∈ cat.databases, db.id = ids.db → db ∈ cat'.databases)
    (hc : ∀ c ∈ cat.collections, c.id < ids.firstUserCollection → c ∈ cat'.collections)
    (hjobs : cat'.jobs = cat.jobs) (hevents : cat'.events = cat.events) : SystemKept ids cat cat' :=
  ⟨hdb, hc, ⟨[], by rw [hjobs, List.append_nil], nofun⟩,
    ⟨[], by rw [hevents, List.append_nil], nofun⟩⟩

theorem refl (ids : SystemIds) (cat : Catalog) : SystemKept ids cat cat :=
  schemaOnly (fun _ h _ => h) (fun _ h _ => h) rfl rfl

theorem trans (h₁ : SystemKept ids cat cat₁) (h₂ : SystemKept ids cat₁ cat₂) :
    SystemKept ids cat cat₂ where
  databases db hdb hid := h₂.databases db (h₁.databases db hdb hid) hid
  collections c hc hid := h₂.collections c (h₁.collections c hc hid) hid
  jobs := appendOnly_trans h₁.jobs h₂.jobs
  events := appendOnly_trans h₁.events h₂.events

theorem chain {r : Except CatalogError α × Catalog}
    {f : α → Catalog → Except CatalogError β × Catalog} (h₁ : SystemKept ids cat r.2)
    (h₂ : ∀ a, r.1 = .ok a → SystemKept ids r.2 (f a r.2).2) :
    SystemKept ids cat (andThen r f).2 := by
  rcases r with ⟨_ | a, cat₁⟩
  · exact h₁
  · exact h₁.trans (h₂ a rfl)

theorem notify {e : CatalogEvent} (he : e.deletesSystem ids = false) :
    SystemKept ids cat (cat.notify e) :=
  ⟨fun _ h _ => h, fun _ h _ => h, (refl ids cat).jobs,
    ⟨[e], rfl, fun _ h => List.mem_singleton.mp h ▸ he⟩⟩

theorem finish (job : CatalogJob) : SystemKept ids cat (cat.finish job) := by
  cases job
  · exact schemaOnly (fun _ h _ => h) (fun _ h _ => List.mem_append_left _ h) rfl rfl
  all_goals exact refl ids cat

theorem submit (o : CatalogOutcomes) {job : CatalogJob} (hj : job.purgesSystem ids = false)
    (wait : Bool) : SystemKept ids cat (Root.submit o job wait cat).2 := by
  unfold Root.submit
  split
  · exact refl ids cat
  · have hqueued : SystemKept ids cat { cat with jobs := cat.jobs ++ [job] } :=
      ⟨fun _ h _ => h, fun _ h _ => h,
        ⟨[job], rfl, fun _ h => List.mem_singleton.mp h ▸ hj⟩, (refl ids cat).events⟩
    cases wait
    · exact hqueued
    · exact hqueued.trans (finish job)

theorem dropDatabase (o : CatalogOutcomes) {db : DatabaseDesc} (hdb : db.id ≠ ids.db) :
    SystemKept ids cat (Root.dropDatabase o db cat).2 := by
  unfold Root.dropDatabase
  split
  · exact refl ids cat
  · refine schemaOnly (fun d hd hid => List.mem_filter.mpr ⟨hd, ?_⟩) (fun _ h _ => h) rfl rfl
    simpa [hid] using hdb.symm

theorem dropCollection (o : CatalogOutcomes) {collection : CollectionDesc}
    (hc : ¬ collection.id < ids.firstUserCollection) :
    SystemKept ids cat (Root.dropCollection o collection cat).2 := by
  unfold Root.dropCollection
  split
  · exact refl ids cat
  · refine schemaOnly (fun _ h _ => h) (fun c hc' hid => List.mem_filter.mpr ⟨hc', ?_⟩) rfl rfl
    have hne : c.id ≠ collection.id := fun he => hc (he ▸ hid)
    simpa using hne

theorem addDatabase (desc : DatabaseDesc) :
    SystemKept ids cat { cat with databases := cat.databases ++ [desc] } :=
  schemaOnly (fun _ h _ => List.mem_append_left _ h) (fun _ h _ => h) rfl rfl

theorem dropDatabase_ok {o : CatalogOutcomes} {db : DatabaseDesc} {id : UInt64}
    (h : (Root.dropDatabase o db cat).1 = .ok id) : id = db.id := by
  unfold Root.dropDatabase at h
  split at h
  · cases h
  · exact (Except.ok.inj h).symm

end SystemKept

theorem createDatabase_systemKept (ids : SystemIds) (o : CatalogOutcomes) (name : String)
    (cat : Catalog) : SystemKept ids cat (createDatabase o name cat).2 :=
  .chain (.refl _ _) fun () _ => .chain (.refl _ _) fun id _ =>
    (SystemKept.addDatabase ⟨id, name⟩).trans (.notify rfl)

theorem deleteDatabase_systemKept (ids : SystemIds) (o : CatalogOutcomes) (name : String)
    (cat : Catalog) : SystemKept ids cat (deleteDatabase ids o name cat).2 := by
  refine .chain (.refl _ _) fun () _ => .chain (.refl _ _) fun () _ => ?_
  split
  · exact .refl _ _
  · split
    · exact .refl _ _
    · next db _ hdb =>
      exact .chain (.submit o (by simpa [CatalogJob.purgesSystem] using hdb) false) fun () _ =>
        .chain (.refl _ _) fun () _ => .chain (.dropDatabase o hdb) fun id hid =>
          .notify (by simpa [CatalogEvent.deletesSystem, SystemKept.dropDatabase_ok hid] using hdb)

theorem doCreateCollection_systemKept (ids : SystemIds) (o : CatalogOutcomes)
    (collection : CollectionDesc) (cat : Catalog) :
    SystemKept ids cat (doCreateCollection o collection cat).2 :=
  .chain (.refl _ _) fun _ _ => .submit o (by rfl) true

theorem createCollection_systemKept (ids : SystemIds) (o : CatalogOutcomes)
    (name database : String) (cat : Catalog) :
    SystemKept ids cat (createCollection o name database cat).2 := by
  refine .chain (.refl _ _) fun () _ => .chain (.refl _ _) fun () _ => ?_
  split
  · exact .refl _ _
  · exact .chain (.refl _ _) fun _ _ => .chain (doCreateCollection_systemKept ids o _ _)
      fun () _ => .notify rfl

theorem deleteCollection_systemKept (ids : SystemIds) (o : CatalogOutcomes) (name : String)
    (database : DatabaseDesc) (cat : Catalog) :
    SystemKept ids cat (deleteCollection ids o name database cat).2 := by
  refine .chain (.refl _ _) fun () _ => .chain (.refl _ _) fun () _ =>
    .chain (.refl _ _) fun () _ => ?_
  split
  · exact .refl _ _
  · refine .chain (.refl _ _) fun () _ => ?_
    split
    · exact .refl _ _
    · split
      · exact .refl _ _
      · next hc =>
        exact .chain (.submit o (by simpa [CatalogJob.purgesSystem] using hc) false) fun () _ =>
          .chain (.dropCollection o hc) fun () _ =>
            .notify (by simpa [CatalogEvent.deletesSystem] using hc)

theorem CatalogCall.step_systemKept (ids : SystemIds) (o : CatalogOutcomes) (cat : Catalog) :
    (call : CatalogCall) → SystemKept ids cat (call.step ids o cat).2
  | .createDatabase name => createDatabase_systemKept ids o name cat
  | .deleteDatabase name => deleteDatabase_systemKept ids o name cat
  | .createCollection name database => createCollection_systemKept ids o name database cat
  | .deleteCollection name database => deleteCollection_systemKept ids o name database cat

/-- No sequence of catalog calls drops the system database or collections from the schema,
queues a purge of them, or tells the watchers they are gone. -/
theorem system_catalog_survives_every_run (ids : SystemIds) (cat : Catalog)
    (calls : List (CatalogCall × CatalogOutcomes)) :
    SystemKept ids cat (CatalogCall.run ids cat calls) := by
  induction calls generalizing cat with
  | nil => exact .refl ids cat
  | cons c calls ih => exact (c.1.step_systemKept ids c.2 cat).trans (ih _)

end Sekas.Root
