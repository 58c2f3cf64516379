import ExperimentControl.Slurm.Observation

/-!
# Allocations of a partition

The resources of a partition as the scheduler's node listing tells them, of
`core/src/slurm/allocation.rs`: one line a node, and behind a marker the rows of the queue.

* `ResourceCount` — a total with what is allocated of it, in checked arithmetic.
* `readNode`, `readNodes` — the lines that list the partition.
* `parseAllocation` — the snapshot of a partition.
* **`parseAllocation_sound`** — its totals are sums over its nodes, each of which is counted once.
-/

namespace ExperimentControl

namespace Slurm

def ALLOCATION_QUEUE_MARKER : String := "\nML_EXPD_QUEUE\n"

/-! ## Counts -/

structure ResourceCount where
  total : UInt64
  allocated : UInt64
  unallocated : UInt64
  deriving DecidableEq, Repr

/-- `ok_or` with a reason that names the evidence. -/
def evident {α : Type} (value : Option α) (reason : String) : Except Error α :=
  value.elim (.error (.evidence reason)) .ok

namespace ResourceCount

def checkedSub (left right : UInt64) : Option UInt64 :=
  if right.toNat ≤ left.toNat then some (left - right) else none

def checkedAdd (left right : UInt64) : Option UInt64 :=
  if left.toNat + right.toNat < 2 ^ 64 then some (left + right) else none

def checkedMul (left right : UInt64) : Option UInt64 :=
  if left.toNat * right.toNat < 2 ^ 64 then some (left * right) else none

def new (total allocated : UInt64) : Except Error ResourceCount := do
  let unallocated ← evident (checkedSub total allocated) "allocation exceeds total"
  .ok ⟨total, allocated, unallocated⟩

def add (count other : ResourceCount) : Except Error ResourceCount := do
  let total ← evident (checkedAdd count.total other.total) "allocation overflow"
  let allocated ← evident (checkedAdd count.allocated other.allocated) "allocation overflow"
  let unallocated ← evident (checkedAdd count.unallocated other.unallocated) "allocation overflow"
  .ok ⟨total, allocated, unallocated⟩

end ResourceCount

structure AllocationResources where
  gpus : ResourceCount
  cpus : ResourceCount
  memoryBytes : ResourceCount
  deriving DecidableEq, Repr

structure AllocationNode where
  node : String
  state : String
  resources : AllocationResources
  deriving DecidableEq, Repr

structure AllocationSnapshot where
  resources : AllocationResources
  nodes : List AllocationNode
  pendingQueueEntries : ℕ
  deriving DecidableEq, Repr

/-- The named resources of a node. -/
def AllocationResources.all : List (AllocationResources → ResourceCount) :=
  [gpus, cpus, memoryBytes]

/-! ## Fields -/

def count (value : String) : Except Error UInt64 :=
  if value = "" ∨ ¬value.toList.all Char.isDigit then .error (.evidence "scheduler count")
  else if Nat.ofDigitChars 10 value.toList 0 < 2 ^ 64 then
    .ok (UInt64.ofNat (Nat.ofDigitChars 10 value.toList 0))
  else .error (.evidence "scheduler count overflow")

/-- Values by their names. -/
abbrev Row := List (String × String)

def required (fields : Row) (name : String) : Except Error String :=
  evident (fields.lookup name) "allocation field missing"

/-- One `key=value` of a list of resources. -/
def tresPart (result : Row) (part : String) : Except Error Row :=
  match splitOnce '=' part with
  | none => .error (.evidence "TRES field")
  | some (key, value) =>
      if key = "" ∨ value = "" ∨ (result.lookup key).isSome then
        .error (.evidence "duplicate or empty TRES")
      else .ok (result ++ [(key, value)])

def tres (value : String) : Except Error Row :=
  ((split ',' value).filter fun part => part ≠ "").foldlM tresPart []

/-! ## Nodes -/

/-- One word of a line. -/
def rowItem (values : Row) (item : String) : Except Error Row :=
  match splitOnce '=' item with
  | none => .ok values
  | some (key, value) =>
      if (values.lookup key).isSome then .error (.evidence "duplicate allocation field")
      else .ok (values ++ [(key, value)])

def row (line : String) : Except Error Row := (splitWhitespace line).foldlM rowItem []

/-- Whether a line lists the partition. -/
def lists (partition : String) (values : Row) : Bool :=
  (values.lookup "Partitions").any fun listed => partition ∈ split ',' listed

/-- The total and the allocated number of every resource of a node. -/
structure Numbers where
  gpus : UInt64 × UInt64
  cpus : UInt64 × UInt64
  memoryBytes : UInt64 × UInt64
  deriving DecidableEq, Repr

/-- The unit of the scheduler's memory numbers. -/
def MEBIBYTE : UInt64 := 1024 * 1024

def numbers (values : Row) : Except Error Numbers := do
  let configured ← (required values "CfgTRES").bind tres
  let allocated ← (required values "AllocTRES").bind tres
  let cpuTotal ← (required values "CPUTot").bind count
  let cpuAllocated ← (required values "CPUAlloc").bind count
  let memory ← (required values "RealMemory").bind count
  let memoryTotal ← evident (ResourceCount.checkedMul memory MEBIBYTE) "memory overflow"
  let memory ← (required values "AllocMem").bind count
  let memoryAllocated ← evident (ResourceCount.checkedMul memory MEBIBYTE) "memory overflow"
  reject (allocated = [] ∧ (cpuAllocated ≠ 0 ∨ memoryAllocated ≠ 0))
    (.evidence "allocation evidence missing")
  let gpuTotal ← (required configured "gres/gpu").bind count
  let gpuAllocated ← count ((allocated.lookup "gres/gpu").getD "0")
  .ok ⟨(gpuTotal, gpuAllocated), (cpuTotal, cpuAllocated), (memoryTotal, memoryAllocated)⟩

/-- The node of a line that lists the partition, whose name was not read before. -/
def readNode (names : List String) (values : Row) : Except Error AllocationNode := do
  let name ← required values "NodeName"
  reject (¬component name ∨ name ∈ names) (.evidence "duplicate or invalid node")
  let numbers ← numbers values
  let state ← required values "State"
  reject (¬printable state 128) (.evidence "node state")
  let gpus ← ResourceCount.new numbers.gpus.1 numbers.gpus.2
  let cpus ← ResourceCount.new numbers.cpus.1 numbers.cpus.2
  let memoryBytes ← ResourceCount.new numbers.memoryBytes.1 numbers.memoryBytes.2
  .ok ⟨name, state, ⟨gpus, cpus, memoryBytes⟩⟩

/-- One line of the listing. -/
def readLine (partition : String) (nodes : List AllocationNode) (line : String) :
    Except Error (List AllocationNode) := do
  let values ← row line
  if lists partition values then
    let node ← readNode (nodes.map AllocationNode.node) values
    .ok (nodes ++ [node])
  else .ok nodes

/-- The resources of one more node. -/
def addNode (resources : AllocationResources) (node : AllocationNode) :
    Except Error AllocationResources := do
  let gpus ← resources.gpus.add node.resources.gpus
  let cpus ← resources.cpus.add node.resources.cpus
  let memoryBytes ← resources.memoryBytes.add node.resources.memoryBytes
  .ok ⟨gpus, cpus, memoryBytes⟩

/-- Whether a row of the queue is a job id or a compressed array. -/
def queueRow (row : String) : Bool :=
  row.toList.head?.any Char.isDigit ∧ byteLen row ≤ 256 ∧
    row.toList.all fun c => c.isDigit ∨ c ∈ "_[],-%:".toList

def parseAllocation (output partition : String) : Except Error AllocationSnapshot := do
  reject (¬component partition) (.configuration "partition")
  reject (byteLen output > 1024 * 1024) (.evidence "allocation size")
  let (nodesText, queue) ← evident (splitOnceAt ALLOCATION_QUEUE_MARKER output) "queue marker missing"
  reject ((splitOnceAt ALLOCATION_QUEUE_MARKER queue).isSome) (.evidence "duplicate queue marker")
  let nodes ← (lines nodesText).foldlM (readLine partition) []
  reject (nodes = []) (.evidence "partition not visible")
  let none ← ResourceCount.new 0 0
  let resources ← nodes.foldlM addNode ⟨none, none, none⟩
  let rows := (lines queue).filter fun row => trim row ≠ ""
  reject (¬rows.all queueRow) (.evidence "pending queue row")
  .ok ⟨resources, nodes, rows.length⟩

/-! ## Arithmetic -/

namespace ResourceCount

/-- What is not allocated is the rest of the total. -/
def Balanced (count : ResourceCount) : Prop :=
  count.allocated.toNat + count.unallocated.toNat = count.total.toNat

lemma checkedSub_eq_some {left right result : UInt64} (h : checkedSub left right = some result) :
    right.toNat + result.toNat = left.toNat := by
  unfold checkedSub at h
  split_ifs at h with hle
  cases h
  rw [UInt64.toNat_sub_of_le _ _ hle]
  omega

lemma checkedAdd_eq_some {left right result : UInt64} (h : checkedAdd left right = some result) :
    result.toNat = left.toNat + right.toNat := by
  unfold checkedAdd at h
  split_ifs at h with hlt
  cases h
  rw [UInt64.toNat_add, Nat.mod_eq_of_lt hlt]

end ResourceCount

lemma evident_eq_ok {α : Type} {value : Option α} {reason : String} {result : α} :
    evident value reason = .ok result ↔ value = some result := by
  cases value with
  | none => exact ⟨nofun, nofun⟩
  | some value => exact ⟨fun h => congrArg some (Except.ok.inj h), fun h => congrArg _ (Option.some.inj h)⟩

namespace ResourceCount

/-- A count that is built has not more allocated than there is. -/
lemma new_eq_ok {total allocated : UInt64} {count : ResourceCount}
    (h : new total allocated = .ok count) :
    count.total = total ∧ count.allocated = allocated ∧ count.Balanced := by
  obtain ⟨rest, hrest, h⟩ := bind_eq_ok.mp h
  cases h
  exact ⟨rfl, rfl, checkedSub_eq_some (evident_eq_ok.mp hrest)⟩

/-- One count is the sum of two others, as numbers. -/
structure IsSum (result count other : ResourceCount) : Prop where
  total : result.total.toNat = count.total.toNat + other.total.toNat
  allocated : result.allocated.toNat = count.allocated.toNat + other.allocated.toNat
  unallocated : result.unallocated.toNat = count.unallocated.toNat + other.unallocated.toNat

lemma add_eq_ok {count other result : ResourceCount} (h : count.add other = .ok result) :
    IsSum result count other := by
  obtain ⟨total, htotal, h⟩ := bind_eq_ok.mp h
  obtain ⟨allocated, hallocated, h⟩ := bind_eq_ok.mp h
  obtain ⟨unallocated, hunallocated, h⟩ := bind_eq_ok.mp h
  cases h
  exact ⟨checkedAdd_eq_some (evident_eq_ok.mp htotal),
    checkedAdd_eq_some (evident_eq_ok.mp hallocated),
    checkedAdd_eq_some (evident_eq_ok.mp hunallocated)⟩

end ResourceCount

/-- A count that sums those of some nodes over what was there before. -/
structure Sums (part : AllocationResources → ResourceCount) (nodes : List AllocationNode)
    (before after : ResourceCount) : Prop where
  total : after.total.toNat =
    before.total.toNat + (nodes.map fun node => (part node.resources).total.toNat).sum
  allocated : after.allocated.toNat =
    before.allocated.toNat + (nodes.map fun node => (part node.resources).allocated.toNat).sum
  unallocated : after.unallocated.toNat =
    before.unallocated.toNat + (nodes.map fun node => (part node.resources).unallocated.toNat).sum

/-- One more node adds its own count to every resource. -/
lemma addNode_eq_ok {resources result : AllocationResources} {node : AllocationNode}
    (h : addNode resources node = .ok result) :
    ∀ part ∈ AllocationResources.all,
      (part result).IsSum (part resources) (part node.resources) := by
  obtain ⟨gpus, hgpus, h⟩ := bind_eq_ok.mp h
  obtain ⟨cpus, hcpus, h⟩ := bind_eq_ok.mp h
  obtain ⟨memoryBytes, hmemory, h⟩ := bind_eq_ok.mp h
  cases h
  intro part hpart
  simp only [AllocationResources.all, List.mem_cons, List.not_mem_nil, or_false] at hpart
  rcases hpart with rfl | rfl | rfl
  · exact ResourceCount.add_eq_ok hgpus
  · exact ResourceCount.add_eq_ok hcpus
  · exact ResourceCount.add_eq_ok hmemory

/-- **The sums of a run of nodes.** -/
lemma sums_of_addNode : ∀ {nodes : List AllocationNode} {resources result : AllocationResources},
    nodes.foldlM addNode resources = .ok result →
      ∀ part ∈ AllocationResources.all, Sums part nodes (part resources) (part result)
  | [], resources, result, h, part, _ => by
      cases h
      exact ⟨by simp, by simp, by simp⟩
  | node :: nodes, resources, result, h, part, hpart => by
      obtain ⟨next, hnext, h⟩ := foldlM_cons_eq_ok.mp h
      have hfirst := addNode_eq_ok hnext part hpart
      have hrest := sums_of_addNode h part hpart
      refine ⟨?_, ?_, ?_⟩
      · rw [hrest.total, hfirst.total, List.map_cons, List.sum_cons, Nat.add_assoc]
      · rw [hrest.allocated, hfirst.allocated, List.map_cons, List.sum_cons, Nat.add_assoc]
      · rw [hrest.unallocated, hfirst.unallocated, List.map_cons, List.sum_cons, Nat.add_assoc]

/-- Balanced counts have a balanced sum. -/
lemma Sums.balanced {part : AllocationResources → ResourceCount} {nodes : List AllocationNode}
    {before after : ResourceCount} (h : Sums part nodes before after) (hbefore : before.Balanced)
    (hnodes : ∀ node ∈ nodes, (part node.resources).Balanced) : after.Balanced := by
  have hsums : (nodes.map fun node => (part node.resources).allocated.toNat).sum +
      (nodes.map fun node => (part node.resources).unallocated.toNat).sum =
        (nodes.map fun node => (part node.resources).total.toNat).sum := by
    rw [← List.sum_map_add]
    exact congrArg List.sum (List.map_congr_left hnodes)
  unfold ResourceCount.Balanced at hbefore ⊢
  rw [h.total, h.allocated, h.unallocated]
  omega

/-! ## Lines -/

/-- The totals and allocated numbers of resources. -/
def AllocationResources.numbers (resources : AllocationResources) : Numbers where
  gpus := (resources.gpus.total, resources.gpus.allocated)
  cpus := (resources.cpus.total, resources.cpus.allocated)
  memoryBytes := (resources.memoryBytes.total, resources.memoryBytes.allocated)

/-- A node is what a line tells. -/
structure Reports (values : Row) (node : AllocationNode) : Prop where
  name : required values "NodeName" = .ok node.node
  numbers : numbers values = .ok node.resources.numbers
  balanced : ∀ part ∈ AllocationResources.all, (part node.resources).Balanced

lemma readNode_eq_ok {names : List String} {values : Row} {node : AllocationNode}
    (h : readNode names values = .ok node) : Reports values node ∧ node.node ∉ names := by
  obtain ⟨name, hname, h⟩ := bind_eq_ok.mp h
  obtain ⟨_, hfresh, h⟩ := bind_eq_ok.mp h
  obtain ⟨found, hfound, h⟩ := bind_eq_ok.mp h
  obtain ⟨state, -, h⟩ := bind_eq_ok.mp h
  obtain ⟨-, -, h⟩ := bind_eq_ok.mp h
  obtain ⟨gpus, hgpus, h⟩ := bind_eq_ok.mp h
  obtain ⟨cpus, hcpus, h⟩ := bind_eq_ok.mp h
  obtain ⟨memoryBytes, hmemory, h⟩ := bind_eq_ok.mp h
  cases h
  obtain ⟨hgpus, hgpus', hgpusRest⟩ := ResourceCount.new_eq_ok hgpus
  obtain ⟨hcpus, hcpus', hcpusRest⟩ := ResourceCount.new_eq_ok hcpus
  obtain ⟨hmemory, hmemory', hmemoryRest⟩ := ResourceCount.new_eq_ok hmemory
  rw [reject_eq_ok, not_or] at hfresh
  refine ⟨⟨hname, ?_, ?_⟩, hfresh.2⟩
  · rw [hfound, AllocationResources.numbers, hgpus, hgpus', hcpus, hcpus', hmemory, hmemory']
  · intro part hpart
    simp only [AllocationResources.all, List.mem_cons, List.not_mem_nil, or_false] at hpart
    rcases hpart with rfl | rfl | rfl
    · exact hgpusRest
    · exact hcpusRest
    · exact hmemoryRest

/-- The rows of the lines that list the partition. -/
def listedRows (partition : String) (lines : List String) : List Row :=
  (lines.filterMap fun line => (row line).toOption).filter (lists partition)

/-- **The lines of a listing.** Those that list the partition are the nodes, in their order, and no
node is read twice. -/
lemma readLine_foldlM {partition : String} : ∀ {lines : List String} {nodes result : List AllocationNode},
    lines.foldlM (readLine partition) nodes = .ok result →
      ∃ more, result = nodes ++ more ∧ List.Forall₂ Reports (listedRows partition lines) more ∧
        ((nodes.map AllocationNode.node).Nodup → (result.map AllocationNode.node).Nodup)
  | [], nodes, result, h => by
      cases h
      exact ⟨[], (List.append_nil _).symm, .nil, id⟩
  | line :: lines, nodes, result, h => by
      obtain ⟨next, hline, h⟩ := foldlM_cons_eq_ok.mp h
      obtain ⟨more, hmore, hrows, hunique⟩ := readLine_foldlM h
      obtain ⟨values, hvalues, hline⟩ := bind_eq_ok.mp hline
      have hcons : listedRows partition (line :: lines) =
          if lists partition values then values :: listedRows partition lines
          else listedRows partition lines := by
        rw [listedRows, List.filterMap_cons, hvalues]
        exact List.filter_cons
      split_ifs at hline with hlists
      · obtain ⟨node, hnode, hnext⟩ := bind_eq_ok.mp hline
        cases hnext
        obtain ⟨hreports, hfresh⟩ := readNode_eq_ok hnode
        refine ⟨node :: more, by rw [hmore, List.append_assoc, List.singleton_append], ?_, ?_⟩
        · rw [hcons, if_pos hlists]
          exact .cons hreports hrows
        · intro hnodup
          refine hunique ?_
          rw [List.map_append, List.map_singleton]
          exact List.Nodup.append hnodup (List.nodup_singleton _)
            (List.disjoint_singleton.mpr hfresh)
      · cases hline
        refine ⟨more, hmore, ?_, hunique⟩
        rw [hcons, if_neg hlists]
        exact hrows

/-! ## Snapshots -/

/-- The rows of an output that list the partition. -/
def rowsOf (output partition : String) : List Row :=
  ((splitOnceAt ALLOCATION_QUEUE_MARKER output).map fun (nodesText, _) =>
    listedRows partition (lines nodesText)).getD []

/-- What a snapshot says: its nodes are those that the rows of the partition report, each of them
once, and its counts are the sums of theirs, in numbers that do not wrap around. -/
structure Totals (output partition : String) (snapshot : AllocationSnapshot) : Prop where
  nodes : List.Forall₂ Reports (rowsOf output partition) snapshot.nodes
  distinct : (snapshot.nodes.map AllocationNode.node).Nodup
  sums : ∀ part ∈ AllocationResources.all,
    Sums part snapshot.nodes ⟨0, 0, 0⟩ (part snapshot.resources)
  balanced : ∀ part ∈ AllocationResources.all, (part snapshot.resources).Balanced

lemma totals_of_parse {output partition : String} {snapshot : AllocationSnapshot}
    (h : parseAllocation output partition = .ok snapshot) : Totals output partition snapshot := by
  obtain ⟨_, _, h⟩ := bind_eq_ok.mp h
  obtain ⟨_, _, h⟩ := bind_eq_ok.mp h
  obtain ⟨⟨nodesText, queue⟩, htexts, h⟩ := bind_eq_ok.mp h
  obtain ⟨_, _, h⟩ := bind_eq_ok.mp h
  obtain ⟨nodes, hnodes, h⟩ := bind_eq_ok.mp h
  obtain ⟨_, _, h⟩ := bind_eq_ok.mp h
  obtain ⟨start, hstart, h⟩ := bind_eq_ok.mp h
  obtain ⟨resources, hresources, h⟩ := bind_eq_ok.mp h
  obtain ⟨_, _, h⟩ := bind_eq_ok.mp h
  cases h
  cases hstart
  obtain ⟨more, hmore, hrows, hunique⟩ := readLine_foldlM hnodes
  rw [List.nil_append] at hmore
  subst hmore
  have hbalanced : ∀ part ∈ AllocationResources.all, ∀ node ∈ nodes,
      (part node.resources).Balanced := by
    intro part hpart node hnode
    obtain ⟨values, -, hreports⟩ := exists_left hrows hnode
    exact hreports.balanced part hpart
  have hsums : ∀ part ∈ AllocationResources.all,
      Sums part nodes ⟨0, 0, 0⟩ (part resources) := by
    intro part hpart
    have hzero : part ⟨⟨0, 0, 0⟩, ⟨0, 0, 0⟩, ⟨0, 0, 0⟩⟩ = ⟨0, 0, 0⟩ := by
      simp only [AllocationResources.all, List.mem_cons, List.not_mem_nil, or_false] at hpart
      rcases hpart with rfl | rfl | rfl <;> rfl
    rw [← hzero]
    exact sums_of_addNode hresources part hpart
  refine ⟨?_, hunique List.nodup_nil, hsums, fun part hpart => ?_⟩
  · rw [rowsOf, evident_eq_ok.mp htexts]
    exact hrows
  · exact (hsums part hpart).balanced rfl (hbalanced part hpart)

/-- More is allocated of a resource than there is. -/
def Numbers.Exceeds (numbers : Numbers) : Prop :=
  numbers.gpus.1.toNat < numbers.gpus.2.toNat ∨ numbers.cpus.1.toNat < numbers.cpus.2.toNat ∨
    numbers.memoryBytes.1.toNat < numbers.memoryBytes.2.toNat

lemma Reports.not_exceeds {values : Row} {node : AllocationNode} (h : Reports values node)
    {found : Numbers} (hfound : Slurm.numbers values = .ok found) : ¬found.Exceeds := by
  obtain rfl := Except.ok.inj (hfound.symm.trans h.numbers)
  have hle : ∀ part ∈ AllocationResources.all,
      (part node.resources).allocated.toNat ≤ (part node.resources).total.toNat :=
    fun part hpart => (h.balanced part hpart).le.trans' (Nat.le_add_right _ _)
  rintro (hgpus | hcpus | hmemory)
  · exact absurd hgpus (hle _ (by simp [AllocationResources.all])).not_gt
  · exact absurd hcpus (hle _ (by simp [AllocationResources.all])).not_gt
  · exact absurd hmemory (hle _ (by simp [AllocationResources.all])).not_gt

/-- The rows of an accepted output name their nodes. -/
lemma Totals.names {output partition : String} {snapshot : AllocationSnapshot}
    (h : Totals output partition snapshot) :
    ((rowsOf output partition).map fun values => values.lookup "NodeName").Nodup := by
  have hnames : (rowsOf output partition).map (fun values => values.lookup "NodeName") =
      (snapshot.nodes.map AllocationNode.node).map some := by
    refine List.forall₂_eq_eq_eq ▸ ?_
    rw [List.map_map, List.forall₂_map_left_iff, List.forall₂_map_right_iff]
    exact h.nodes.imp fun values node hreports => evident_eq_ok.mp hreports.name
  rw [hnames]
  exact h.distinct.map (Option.some_injective _)

/-- **Totals are sums over distinct nodes.** A snapshot counts every node of the partition once, in
numbers that do not wrap around, and at every level the rest of a total is what is not allocated. A
row of the partition with more allocated than there is, or with a node that another one names,
leaves no snapshot. -/
theorem parseAllocation_sound (output partition : String) :
    (∀ snapshot, parseAllocation output partition = .ok snapshot →
      Totals output partition snapshot) ∧
    ((∃ values ∈ rowsOf output partition, ∃ found, numbers values = .ok found ∧ found.Exceeds) ∨
        ¬((rowsOf output partition).map fun values => values.lookup "NodeName").Nodup →
      ∃ e, parseAllocation output partition = .error e) := by
  refine ⟨fun snapshot h => totals_of_parse h, fun hbad => ?_⟩
  cases hparse : parseAllocation output partition with
  | error e => exact ⟨e, rfl⟩
  | ok snapshot =>
    have htotals := totals_of_parse hparse
    rcases hbad with ⟨values, hvalues, found, hfound, hexceeds⟩ | hrepeats
    · obtain ⟨node, -, hreports⟩ := exists_right htotals.nodes hvalues
      exact absurd hexceeds (hreports.not_exceeds hfound)
    · exact absurd htotals.names hrepeats

/-! ## Lines of other partitions -/

def sharedNode : List String :=
  ["NodeName=a", "Partitions=x", "CfgTRES=gres/gpu=1", "AllocTRES=", "CPUTot=1", "CPUAlloc=0",
    "RealMemory=1", "AllocMem=0", "State=I"]

def otherNode : List String := ["NodeName=a", "CPUTot=0", "CPUAlloc=1"]

/-- A listing with a node of the partition `x`, and once more without it. -/
def twoLines : String := join '\n' [join ' ' sharedNode, join ' ' otherNode]

/-- What the second line tells. -/
def otherRow : Row := [("NodeName", "a"), ("CPUTot", "0"), ("CPUAlloc", "1")]

lemma words_plain : ∀ word ∈ sharedNode ++ otherNode, word ≠ "" ∧ '_' ∉ word.toList ∧
    ∀ c ∈ word.toList, isWhitespace c = false := by
  have hall : (sharedNode ++ otherNode).all fun word => decide (word ≠ "") &&
      decide ('_' ∉ word.toList) && word.toList.all fun c => !isWhitespace c := by
    decide
  intro word hword
  have hplain := List.all_eq_true.mp hall word hword
  simpa [and_assoc] using hplain

lemma row_otherNode : row (join ' ' otherNode) = .ok otherRow := by
  rw [row, splitWhitespace_join fun word hword =>
    have h := words_plain word (List.mem_append_right _ hword)
    ⟨h.1, h.2.2⟩]
  rfl

lemma row_sharedNode : ∃ values node resources, row (join ' ' sharedNode) = .ok values ∧
    values.lookup "NodeName" = some "a" ∧ (required values "CPUTot").bind count = .ok 1 ∧
    lists "x" values = true ∧ readNode [] values = .ok node ∧
    addNode ⟨⟨0, 0, 0⟩, ⟨0, 0, 0⟩, ⟨0, 0, 0⟩⟩ node = .ok resources := by
  rw [row, splitWhitespace_join fun word hword =>
    have h := words_plain word (List.mem_append_left _ hword)
    ⟨h.1, h.2.2⟩]
  exact ⟨_, _, _, rfl, rfl, rfl, rfl, rfl, rfl⟩

/-- A line of plain words has only their characters and spaces. -/
lemma not_mem_line {words : List String} {c : Char} (hc : c = '_' ∨ c = '\n' ∨ c = '\r')
    (h : words ⊆ sharedNode ++ otherNode) : c ∉ (join ' ' words).toList := by
  intro hmem
  rcases mem_join hmem with rfl | ⟨word, hword, hin⟩
  · simp at hc
  · obtain ⟨-, hmark, hspace⟩ := words_plain word (h hword)
    rcases hc with rfl | rfl | rfl
    · exact hmark hin
    · exact absurd (hspace _ hin) (by decide)
    · exact absurd (hspace _ hin) (by decide)

lemma lines_twoLines : lines twoLines = [join ' ' sharedNode, join ' ' otherNode] := by
  refine lines_join_pair (not_mem_line (by simp) (by simp)) ?_ (not_mem_line (by simp) (by simp)) ?_
  · intro hlast
    exact not_mem_line (c := '\r') (by simp) (by simp) (List.mem_of_getLast? hlast)
  · intro hnone
    have hwords := splitWhitespace_join fun word hword =>
      have h := words_plain word (List.mem_append_right _ hword)
      ⟨h.1, h.2.2⟩
    rw [hnone] at hwords
    exact absurd hwords (by decide)

lemma split_twoLines : splitOnceAt ALLOCATION_QUEUE_MARKER (twoLines ++ ALLOCATION_QUEUE_MARKER) =
    some (twoLines, "") := by
  refine @splitOnceAt_append _ ['\n', 'M', 'L'] _ '_' (by decide) fun hmem => ?_
  rcases mem_join hmem with hmark | ⟨line, hline, hin⟩
  · exact absurd hmark (by decide)
  · rcases List.mem_pair.mp hline with rfl | rfl
    · exact not_mem_line (by simp) (by simp) hin
    · exact not_mem_line (by simp) (by simp) hin

lemma byteLen_twoLines : byteLen (twoLines ++ ALLOCATION_QUEUE_MARKER) ≤ 1024 * 1024 := by
  have hmarker : (utf8 ALLOCATION_QUEUE_MARKER).length = 15 := by decide
  have hfirst := @length_utf8_join_le ' ' (by decide) sharedNode
  have hsecond := @length_utf8_join_le ' ' (by decide) otherNode
  have hlines := @length_utf8_join_le '\n' (by decide) [join ' ' sharedNode, join ' ' otherNode]
  have hwords : ((sharedNode ++ otherNode).map fun field => (utf8 field).length + 1).sum ≤ 200 := by
    decide
  rw [List.map_append, List.sum_append] at hwords
  rw [List.map_cons, List.map_singleton, List.sum_cons, List.sum_singleton] at hlines
  rw [byteLen, utf8_append, List.length_append, hmarker, twoLines]
  omega

/-- **What other partitions are told is not looked at**: a node of the partition is told of once more,
with another number of processors and with more of them allocated than there are. -/
theorem other_partition_ignored :
    (∃ snapshot, parseAllocation (twoLines ++ ALLOCATION_QUEUE_MARKER) "x" = .ok snapshot) ∧
    lines twoLines = [join ' ' sharedNode, join ' ' otherNode] ∧
    (∃ values, row (join ' ' sharedNode) = .ok values ∧ values.lookup "NodeName" = some "a" ∧
      (required values "CPUTot").bind count = .ok 1) ∧
    row (join ' ' otherNode) = .ok otherRow ∧ otherRow.lookup "NodeName" = some "a" ∧
    (required otherRow "CPUTot").bind count = .ok 0 ∧
    (required otherRow "CPUAlloc").bind count = .ok 1 := by
  obtain ⟨values, node, resources, hvalues, hname, hcount, hlists, hnode, hsum⟩ := row_sharedNode
  refine ⟨?_, lines_twoLines, ⟨values, hvalues, hname, hcount⟩, row_otherNode, rfl, rfl, rfl⟩
  have hfirst : readLine "x" [] (join ' ' sharedNode) = .ok [node] := by
    rw [readLine, hvalues, ok_bind, if_pos hlists]
    exact congrArg (· >>= _) hnode
  have hsecond : readLine "x" [node] (join ' ' otherNode) = .ok [node] := by
    rw [readLine, row_otherNode]
    rfl
  have hnodes : (lines twoLines).foldlM (readLine "x") [] = .ok [node] := by
    rw [lines_twoLines, List.foldlM_cons, hfirst, ok_bind, List.foldlM_cons, hsecond]
    rfl
  have hresources : [node].foldlM addNode ⟨⟨0, 0, 0⟩, ⟨0, 0, 0⟩, ⟨0, 0, 0⟩⟩ = .ok resources := by
    rw [List.foldlM_cons, hsum]
    rfl
  have hqueue : lines "" = [] := by decide
  have hnone : ResourceCount.new 0 0 = .ok ⟨0, 0, 0⟩ := rfl
  have hcomponent : component "x" = true := by decide
  have hagain : splitOnceAt ALLOCATION_QUEUE_MARKER "" = none := by decide
  refine ⟨⟨resources, [node], 0⟩, bind_eq_ok.mpr ⟨(), reject_eq_ok.mpr ?_, ?_⟩⟩
  · exact not_not.mpr hcomponent
  refine bind_eq_ok.mpr ⟨(), reject_eq_ok.mpr byteLen_twoLines.not_gt, ?_⟩
  refine bind_eq_ok.mpr ⟨_, evident_eq_ok.mpr split_twoLines, ?_⟩
  refine bind_eq_ok.mpr ⟨(), reject_eq_ok.mpr (by rw [hagain]; nofun), ?_⟩
  refine bind_eq_ok.mpr ⟨_, hnodes, bind_eq_ok.mpr ⟨(), reject_eq_ok.mpr nofun, ?_⟩⟩
  refine bind_eq_ok.mpr ⟨_, hnone, bind_eq_ok.mpr ⟨_, hresources, ?_⟩⟩
  rw [hqueue]
  rfl

end Slurm

end ExperimentControl
