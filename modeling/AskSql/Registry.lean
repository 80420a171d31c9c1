import AskSql.Schema

/-! The schemas that have been loaded, one snapshot a tenant.  A tenant is loaded when it is first
asked for and then stays as it is until it is loaded again or dropped.  Each load gets a serial
number of its own, by which two snapshots are told apart. -/

namespace AskSql

/-- Where configurations come from. -/
abbrev ConfigSource := String → Except Fault TenantConfig

/-- A schema as it was loaded, with the serial number of the load. -/
structure Snapshot where
  serial : Nat
  schema : Schema

/-- The loaded snapshots and the serial number of the next load. -/
structure Registry where
  snapshots : Keyed Snapshot := .empty
  nextSerial : Nat := 0

namespace Registry

/-- The registry in which nothing is loaded. -/
def empty : Registry := {}

/-- Loads a tenant in any case.  A failed load changes nothing. -/
def load (registry : Registry) (source : ConfigSource) (tenant : String) :
    Except Fault Snapshot × Registry :=
  match source tenant >>= Schema.ofConfig with
  | .error fault => (.error fault, registry)
  | .ok schema =>
    let snapshot : Snapshot := ⟨registry.nextSerial, schema⟩
    (.ok snapshot,
      { snapshots := registry.snapshots.insert tenant snapshot
        nextSerial := registry.nextSerial + 1 })

/-- The snapshot of a tenant, which is loaded if it is not there. -/
def get (registry : Registry) (source : ConfigSource) (tenant : String) :
    Except Fault Snapshot × Registry :=
  match registry.snapshots.get? tenant with
  | some snapshot => (.ok snapshot, registry)
  | none => registry.load source tenant

/-- Drops the snapshot of a tenant.  Returns whether there was one. -/
def invalidate (registry : Registry) (tenant : String) : Bool × Registry :=
  (registry.snapshots.contains tenant,
    { registry with snapshots := registry.snapshots.erase tenant })

/-- Drops every snapshot. -/
def invalidateAll (registry : Registry) : Registry :=
  { registry with snapshots := .empty }

/-- The tenants that are loaded, in order. -/
def tenants (registry : Registry) : List String :=
  registry.snapshots.keys

end Registry

end AskSql
