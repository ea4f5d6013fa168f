import Workflow.Proofs.Service.Change
import Workflow.Service.Pool

/-!
# How a store keeps definitions

What a client can rely on when it loads, saves and deletes definitions, whichever
store it uses.  A definition is kept but for what its row leaves out; saving over
the version that is stored replaces it, and any other version is refused.

The store in memory is one such store (`Memory.shelving`), and so is the store in
tables (`Tables.shelving`).
-/

namespace Workflow.Service

open Store (Backend Step)

/-- Whether a step writes definitions. -/
def writesDefinitions : Step → Bool
  | .save .. | .delete _ => true
  | .load _ | .definitions _ | .appendApproval _ | .approvals _ | .appendRun _ | .updateRun _
  | .run _ | .runs .. | .orgRuns .. | .summary _ | .templates | .template _ => false

/-- What of a definition is kept, where, and how the steps of a store treat it. -/
structure Shelving (σ : Type) [Backend σ] where
  /-- the part of a definition that is kept by saving it -/
  core : Definition → Definition
  shelf : σ → Shelf
  /-- what a definition must satisfy to be kept as it is -/
  Typed : Definition → Prop
  TypedTemplate : Template → Prop
  /-- what must be so for a definition to be saved -/
  Fits : Definition → Prop
  Sound : σ → Prop
  core_version : ∀ d, (core d).version = d.version
  core_createdAt : ∀ d, (core d).createdAt = d.createdAt
  core_change : ∀ (call : Call) now d,
    (call.change now d).map core = (call.change now (core d)).map core
  shelf_core : ∀ {st : σ} {id c}, Sound st → shelf st id = some c → core c = c
  take_error : ∀ {s : Step} {st st' : σ} {e}, Backend.take s st = (.error e, st') → st' = st
  load_ok : ∀ {st st' : σ} {id d}, Sound st → Backend.take (.load id) st = (.ok d, st') →
    st' = st ∧ d.id = id ∧ Typed d ∧ shelf st id = some (core d)
  template_ok : ∀ {st st' : σ} {key t}, Sound st →
    Backend.take (.template key) st = (.ok t, st') → TypedTemplate t
  save_new : ∀ {st : σ} {d}, Sound st → Typed d → shelf st d.id = none →
    (∃ e, Backend.take (.save d .null) st = (.error e, st)) ∨
    ∃ st', Backend.take (.save d .null) st = (.ok (), st') ∧ Sound st' ∧
      shelf st' = (shelf st).put d.id (some (core d))
  save_missing : ∀ {st : σ} {d} {v : Int}, Sound st → shelf st d.id = none →
    Backend.take (.save d (.int v)) st = (.error (.definitionMissing d.id), st)
  save_unfit : ∀ {st : σ} {d c} {v : Int}, Sound st → Typed d → ¬Fits d →
    shelf st d.id = some c → ∃ e, Backend.take (.save d (.int v)) st = (.error e, st)
  save_stale : ∀ {st : σ} {h d c}, Sound st → Typed h → Typed d → Fits d →
    h.version ≤ d.version → shelf st d.id = some c → c.version ≠ h.version →
    Backend.take (.save d (.int h.version)) st
      = (.error (.stale d.id (.int h.version) c.version), st)
  save_current : ∀ {st : σ} {h d c}, Sound st → Typed h → Typed d → Fits d →
    h.version ≤ d.version → shelf st d.id = some c → c.version = h.version →
    c.createdAt = d.createdAt →
    ∃ st', Backend.take (.save d (.int h.version)) st = (.ok (), st') ∧ Sound st' ∧
      shelf st' = (shelf st).put d.id (some (core d))
  delete_ok : ∀ {st st' : σ} {id}, Sound st → Backend.take (.delete id) st = (.ok (), st') →
    Sound st' ∧ shelf st' = (shelf st).put id none
  take_other : ∀ {s : Step} {st st' : σ} {a}, Sound st → writesDefinitions s = false →
    Backend.take s st = (.ok a, st') → Sound st' ∧ shelf st' = shelf st

end Workflow.Service
