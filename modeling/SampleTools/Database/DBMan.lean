import Mathlib.Data.Int.Notation
import Mathlib.Data.List.InsertIdx
import Mathlib.Data.List.Nodup
import Mathlib.Data.List.Perm.Basic
import SampleTools.Library.Run

/-!
# The database connection pools

`DBMan` keeps a main pool of connections and backup pools, all connections of a pool
to one database. `GetDB` lends the first connection of the main pool but never the last
one, `PushDB` takes a connection back into the pool with its serial number, and
`SwapDBPool` puts the first backup pool in the main pool's place.

## Main definitions

* `DBMan.init`, `DBMan.getDB`, `DBMan.pushDB`, `DBMan.swapDBPool`
* `DBMan.Filled`, `DBMan.Uniform`, `DBMan.DistinctSn`: what is true of the pools

## Main results

* `DBMan.init_made`: the pools `Init` makes
* `DBMan.pushDB_eq`: where `PushDB` puts a connection, and that it may drop it
-/

namespace SampleTools

/-- An open connection: the object, and the serial number `db_sn_`. -/
structure BaseDB where
  ptr : ℕ
  dbSn : UInt64
  deriving DecidableEq, Repr

abbrev BaseDBPool := List BaseDB

abbrev DBPools := List BaseDBPool

/-- `DBConnConfig`. -/
structure DBConnConfig where
  driverName : String
  addr : String
  user : String
  passwd : String
  db : String
  poolSize : ℤ

/-- `DBMan`: the main pool and the backup pools. -/
structure DBMan where
  dbPool : BaseDBPool := []
  backupPool : DBPools := []
  deriving DecidableEq, Repr

/-- `MAX_POOL_SIZE`. -/
def maxPoolSize : ℤ := 100

namespace DBMan

/-! ## Opening the connections -/

section Init

variable (hash : String → UInt64) (opens : ℕ → Bool)

/-- The serial number `MysqlDB::Open` computes. -/
def serialNumber (addr db : String) : UInt64 := hash addr ^^^ (hash db <<< 1)

/-- The number of connections `Init` tries to open. -/
def openCount (poolSize : ℤ) : ℤ :=
  if poolSize ≤ 0 ∨ poolSize > maxPoolSize then maxPoolSize else poolSize

/-- `Init` of one pool: the connections that could be opened. Objects are numbered from
`next` on; `opens` tells for which of them the server was reached. -/
def initPool (next : ℕ) (c : DBConnConfig) (poolSize : ℤ) : BaseDBPool :=
  if c.driverName.isEmpty || c.addr.isEmpty || c.user.isEmpty || c.passwd.isEmpty then []
  else if c.driverName = "mysql" then
    ((List.range' next (openCount poolSize).toNat).filter opens).map fun ptr =>
      ⟨ptr, serialNumber hash c.addr c.db⟩
  else []

/-- The loop of `Init`: the first pool with a connection becomes the main pool, the
others become backup pools. -/
def initLoop : List DBConnConfig → ℕ → ℕ → DBMan → DBMan
  | [], _, _, m => m
  | c :: rest, index, next, m =>
    let pool := initPool hash opens next c (c.poolSize + 1)
    let next := next + maxPoolSize.toNat
    -- a pool without a connection does not count
    if pool.length > 0 then
      if index = 0 then initLoop rest (index + 1) next { m with dbPool := pool }
      else initLoop rest (index + 1) next { m with backupPool := m.backupPool ++ [pool] }
    else initLoop rest index next m

/-- `Init`, on a new `DBMan`; `none` where it returns `false`. -/
def init (config : List DBConnConfig) : Option DBMan :=
  if config.isEmpty then none else some (initLoop hash opens config 0 0 {})

end Init

/-! ## Lending and returning -/

/-- `GetDB`: the connection, or `none` for `nullptr`. -/
def getDB (m : DBMan) : Option BaseDB × DBMan :=
  if m.dbPool.length = 0 then (none, m)
  else if 2 ≤ m.dbPool.length then (m.dbPool.head?, { m with dbPool := m.dbPool.tail })
  else (none, m)

/-- `pool.insert(pool.begin() + size - 1, 1, db)`. -/
def insertBeforeLast (pool : BaseDBPool) (db : BaseDB) : BaseDBPool :=
  pool.insertIdx (pool.length - 1) db

/-- The loop of `PushDB` over `backup_pool_`. The loop variable is a copy of the pool;
`none` where `front` is called on an empty pool. -/
def pushBackup (db : BaseDB) : DBPools → Option DBPools
  | [] => some []
  | pool :: rest =>
    match pool with
    | [] => none
    | front :: _ =>
      if front.dbSn = db.dbSn then
        -- the connection goes into the copy only
        let _iter := insertBeforeLast pool db
        some (pool :: rest)
      else (pushBackup db rest).map (pool :: ·)

/-- `PushDB`; `none` where `front` is called on an empty pool. -/
def pushDB (db : Option BaseDB) (m : DBMan) : Option DBMan :=
  match db with
  | none => some m
  | some db =>
    match m.dbPool with
    | [] => none
    | front :: _ =>
      if front.dbSn = db.dbSn then some { m with dbPool := insertBeforeLast m.dbPool db }
      else (pushBackup db m.backupPool).map fun pools => { m with backupPool := pools }

/-- `SwapDBPool`. -/
def swapDBPool (m : DBMan) : DBMan :=
  if m.backupPool.isEmpty then m
  else
    let pools := m.backupPool ++ [m.dbPool]
    { dbPool := pools.headD [], backupPool := pools.tail }

/-- The main pool and the backup pools. -/
def pools (m : DBMan) : DBPools := m.dbPool :: m.backupPool

/-- All connections in the pools. -/
def connections (m : DBMan) : List BaseDB := m.pools.flatten

/-- Each pool is connected to one database. -/
def Uniform (m : DBMan) : Prop :=
  ∀ pool ∈ m.pools, ∀ c ∈ pool, ∀ d ∈ pool, c.dbSn = d.dbSn

/-- Different pools are connected to different databases. -/
def DistinctSn (m : DBMan) : Prop :=
  m.pools.Pairwise fun p q => ∀ c ∈ p, ∀ d ∈ q, c.dbSn ≠ d.dbSn

/-- There are no pools at all, or each has a connection. -/
def Filled (m : DBMan) : Prop := m = {} ∨ ∀ pool ∈ m.pools, pool ≠ []

/-! ## What `Init` makes -/

section Init

variable {hash : String → UInt64} {opens : ℕ → Bool}

theorem openCount_le (n : ℤ) : openCount n ≤ maxPoolSize := by
  unfold openCount
  split <;> omega

theorem initPool_cases (next : ℕ) (c : DBConnConfig) (n : ℤ) :
    initPool hash opens next c n = [] ∨
      ∃ k ≤ maxPoolSize.toNat, initPool hash opens next c n =
        ((List.range' next k).filter opens).map fun ptr =>
          ⟨ptr, serialNumber hash c.addr c.db⟩ := by
  unfold initPool
  split
  · exact .inl rfl
  · split
    · exact .inr ⟨_, Int.toNat_le_toNat (openCount_le n), rfl⟩
    · exact .inl rfl

/-- A new pool: one database, new objects. -/
theorem initPool_made (next : ℕ) (c : DBConnConfig) (n : ℤ) :
    (∀ d ∈ initPool hash opens next c n, ∀ e ∈ initPool hash opens next c n, d.dbSn = e.dbSn) ∧
      (initPool hash opens next c n).Nodup ∧
      ∀ d ∈ initPool hash opens next c n, next ≤ d.ptr ∧ d.ptr < next + maxPoolSize.toNat := by
  rcases initPool_cases next c n with h | ⟨k, hk, h⟩
  · rw [h]
    exact ⟨List.forall_mem_nil _, List.nodup_nil, List.forall_mem_nil _⟩
  · rw [h]
    refine ⟨?_, ?_, ?_⟩
    · intro d hd e he
      obtain ⟨_, -, rfl⟩ := List.mem_map.mp hd
      obtain ⟨_, -, rfl⟩ := List.mem_map.mp he
      rfl
    · refine List.Nodup.map ?_ ((List.nodup_range' ..).filter _)
      intro p q hpq
      exact congrArg BaseDB.ptr hpq
    · intro d hd
      obtain ⟨ptr, hptr, rfl⟩ := List.mem_map.mp hd
      have hrange := List.mem_range'_1.mp (List.mem_filter.mp hptr).1
      exact ⟨hrange.1, Nat.lt_of_lt_of_le hrange.2 (Nat.add_le_add_left hk _)⟩

/-- What the loop of `Init` has made so far, with objects numbered below `next`. -/
structure Made (m : DBMan) (index next : ℕ) : Prop where
  empty : index = 0 → m = {}
  filled : index ≠ 0 → ∀ pool ∈ m.pools, pool ≠ []
  uniform : m.Uniform
  nodup : m.connections.Nodup
  below : ∀ c ∈ m.connections, c.ptr < next

/-- A pool that joins the others. -/
theorem Made.join {m m' : DBMan} {index next : ℕ} (h : Made m index next) {c : DBConnConfig}
    (hpool : initPool hash opens next c (c.poolSize + 1) ≠ [])
    (hm : m'.pools = if index = 0 then [initPool hash opens next c (c.poolSize + 1)]
      else m.pools ++ [initPool hash opens next c (c.poolSize + 1)]) :
    Made m' (index + 1) (next + maxPoolSize.toNat) := by
  obtain ⟨huniform, hnodup, hptr⟩ := @initPool_made hash opens next c (c.poolSize + 1)
  -- before the first pool there are no connections, so it joins them as well
  have hconn : m'.connections = m.connections ++ initPool hash opens next c (c.poolSize + 1) := by
    rw [connections, hm]
    split
    · rename_i hindex
      simp [connections, pools, h.empty hindex]
    · rw [List.flatten_append, List.flatten_singleton, connections]
  have hmem : ∀ pool ∈ m'.pools, (index ≠ 0 ∧ pool ∈ m.pools) ∨
      pool = initPool hash opens next c (c.poolSize + 1) := by
    intro pool hp
    rw [hm] at hp
    split at hp
    · exact .inr (List.mem_singleton.mp hp)
    · rename_i hindex
      exact (List.mem_append.mp hp).imp (fun hp => ⟨hindex, hp⟩) List.mem_singleton.mp
  refine ⟨fun h0 => absurd h0 (Nat.succ_ne_zero _), ?_, ?_, ?_, ?_⟩
  · intro _ pool hp
    rcases hmem pool hp with ⟨hindex, hp⟩ | rfl
    · exact h.filled hindex pool hp
    · exact hpool
  · intro pool hp
    rcases hmem pool hp with ⟨-, hp⟩ | rfl
    · exact h.uniform pool hp
    · exact huniform
  · rw [hconn, List.nodup_append]
    refine ⟨h.nodup, hnodup, ?_⟩
    rintro d hd _ he rfl
    -- the new objects have higher numbers
    have := h.below d hd
    have := hptr d he
    omega
  · rw [hconn]
    intro d hd
    rcases List.mem_append.mp hd with hd | hd
    · have := h.below d hd
      omega
    · exact (hptr d hd).2

theorem initLoop_made {config : List DBConnConfig} {index next : ℕ} {m : DBMan}
    (h : Made m index next) :
    let m' := initLoop hash opens config index next m
    m'.Filled ∧ m'.Uniform ∧ m'.connections.Nodup := by
  induction config generalizing index next m with
  | nil =>
    refine ⟨?_, h.uniform, h.nodup⟩
    by_cases hindex : index = 0
    · exact .inl (h.empty hindex)
    · exact .inr (h.filled hindex)
  | cons c rest ih =>
    simp only [initLoop]
    split
    · rename_i hlen
      have hpool := List.ne_nil_of_length_pos hlen
      split
      · rename_i hindex
        refine ih (h.join hpool ?_)
        rw [if_pos hindex, pools, h.empty hindex]
      · rename_i hindex
        refine ih (h.join hpool ?_)
        rw [if_neg hindex, pools, pools, List.cons_append]
    · exact ih ⟨h.empty, h.filled, h.uniform, h.nodup,
        fun c hc => Nat.lt_of_lt_of_le (h.below c hc) (Nat.le_add_right _ _)⟩

/-- `Init` fills the pools, each from one database, with new objects. -/
theorem init_made {config : List DBConnConfig} {m : DBMan}
    (h : init hash opens config = some m) : m.Filled ∧ m.Uniform ∧ m.connections.Nodup := by
  unfold init at h
  split at h
  · cases h
  · cases h
    exact initLoop_made
      ⟨fun _ => rfl, fun h => absurd rfl h, by simp [Uniform, pools],
        by simp [connections, pools], by simp [connections, pools]⟩

end Init

/-! ## What the calls do to the pools -/

variable {m : DBMan}

theorem insertBeforeLast_perm (pool : BaseDBPool) (db : BaseDB) :
    (insertBeforeLast pool db).Perm (db :: pool) :=
  List.perm_insertIdx _ _ (Nat.sub_le _ _)

theorem getDB_cases (m : DBMan) :
    m.getDB = (none, m) ∨ ∃ db next pool, m.dbPool = db :: next :: pool ∧
      m.getDB = (some db, { m with dbPool := next :: pool }) := by
  obtain ⟨dbPool, backupPool⟩ := m
  match dbPool with
  | [] => exact .inl rfl
  | [_] => exact .inl rfl
  | db :: next :: pool => exact .inr ⟨db, next, pool, rfl, rfl⟩

/-- The loop over the backup pools changes none of them. -/
theorem pushBackup_eq (db : BaseDB) {pools : DBPools} (h : ∀ pool ∈ pools, pool ≠ []) :
    pushBackup db pools = some pools := by
  induction pools with
  | nil => rfl
  | cons pool rest ih =>
    simp only [List.mem_cons, forall_eq_or_imp] at h
    match pool, h.1 with
    | front :: tail, _ =>
      rw [pushBackup, ih h.2]
      split <;> rfl

/-- A connection is taken back if the main pool is its own, and dropped otherwise. -/
theorem pushDB_eq (db : BaseDB) (h : ∀ pool ∈ m.pools, pool ≠ []) :
    m.pushDB (some db) = some
      (if m.dbPool.head?.map BaseDB.dbSn = some db.dbSn
        then { m with dbPool := insertBeforeLast m.dbPool db } else m) := by
  obtain ⟨dbPool, backupPool⟩ := m
  simp only [pools, List.mem_cons, forall_eq_or_imp] at h
  match dbPool, h.1 with
  | front :: tail, _ =>
    simp only [pushDB, pushBackup_eq db h.2, List.head?_cons, Option.map_some, Option.some.injEq]
    split <;> rfl

theorem swapDBPool_pools (m : DBMan) : m.swapDBPool.pools.Perm m.pools := by
  obtain ⟨dbPool, backupPool⟩ := m
  match backupPool with
  | [] => exact .refl _
  | pool :: rest => exact List.perm_append_singleton dbPool (pool :: rest)

end DBMan

end SampleTools
