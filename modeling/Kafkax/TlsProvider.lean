import Kafkax.Connect
import Kafkax.Library.Interleave
import Kafkax.Library.OnceCell

/-!
# The crypto provider of the process

`build_tls_config` installs the crypto provider of the process and looks for one only if that
fails.  The provider is a cell that is filled once, by whichever call comes first, and other parts
of the process may fill it with a provider of their own.  Here the two calls are those of a program
that runs among all the others.

`concurrent_tls_config`: each call returns what it would have returned alone, so concurrent
connects do not fail for the race, and the provider that was there first stays.
-/

namespace Kafkax

open LineText OnceCells Programs Relation

/-- The calls on the provider of the process. -/
inductive ProviderCall where
  | installDefault
  | getDefault
deriving DecidableEq

/-- What they answer; an install that fails gives the provider back. -/
abbrev ProviderCall.Response (π : Type) : ProviderCall → Type
  | .installDefault => Except π Unit
  | .getDefault => Option π

variable {π : Type}

/-- A call, with the provider that this crate installs. -/
def performProvider (ring : π) :
    (c : ProviderCall) → Option π → ProviderCall.Response π c × Option π
  | .installDefault, cell => trySet ring cell
  | .getDefault, cell => (cell, cell)

/-- A program of calls on the provider. -/
abbrev ProviderProgram (π α : Type) :=
  Program ProviderCall (ProviderCall.Response π) KafkaError α

/-- The install of `build_tls_config`; `debug` is the `Debug` of a provider. -/
def ensureProvider (debug : π → Text) : ProviderProgram π Unit :=
  .call .installDefault fun
    | .ok () => .ret (.ok ())
    | .error installed =>
      .call .getDefault fun
        | some _ => .ret (.ok ())
        | none => .ret (.error
            (.config ("TLS crypto provider 安装失败: " ++ String.ofList (debug installed))))

/-- `build_tls_config`, with its calls on the provider; the certificates are those of `world`. -/
def buildTlsConfigCalls (debug : π → Text) (world : TlsWorld) (caFile : Option PathBuf) :
    ProviderProgram π TlsConfig :=
  match world.joinError with
  | some error => .ret (.error (.connection ("TLS 配置任务失败: " ++ String.ofList error)))
  | none => do
    ensureProvider debug
    .ret ((rootStore world caFile).map TlsConfig.mk)

/-- The world of a call that finds no provider and installs its own. -/
def TlsWorld.alone (world : TlsWorld) : TlsWorld :=
  { world with installDefault := .ok (), hasDefault := true }

theorem addRoots_alone (world : TlsWorld) (roots certificates : List Certificate) :
    addRoots world.alone roots certificates = addRoots world roots certificates := by
  induction certificates generalizing roots with
  | nil => rfl
  | cons certificate rest ih =>
    rw [addRoots, addRoots, ih]
    rfl

theorem rootStore_alone (world : TlsWorld) (caFile : Option PathBuf) :
    rootStore world.alone caFile = rootStore world caFile := by
  cases caFile with
  | none => rfl
  | some path =>
    have hread : readCaFile world.alone path = readCaFile world path := rfl
    rw [rootStore, rootStore, hread]
    cases readCaFile world path with
    | error error => rfl
    | ok certificates => exact addRoots_alone world world.serverRoots certificates

theorem buildTlsConfig_alone (world : TlsWorld) (caFile : Option PathBuf) :
    buildTlsConfig world.alone caFile =
      match world.joinError with
      | some error => .error (.connection ("TLS 配置任务失败: " ++ String.ofList error))
      | none => (rootStore world caFile).map TlsConfig.mk := by
  have hjoin : world.alone.joinError = world.joinError := rfl
  rw [buildTlsConfig, rootStore_alone, hjoin]
  cases world.joinError <;> rfl

variable {ring : π} {debug : π → Text} {world : TlsWorld} {caFile : Option PathBuf}
  {before after : Option π}

/-- **The install** passes, and leaves a provider. -/
theorem ensureProvider_passes {α : Type} {rest : Unit → ProviderProgram π α}
    {result : KafkaResult α}
    (h : Interleaved Fills (performProvider ring) (ensureProvider debug >>= rest) before result
      after) :
    ∃ provider, ReflTransGen Fills before (some provider) ∧
      Interleaved Fills (performProvider ring) (rest ()) (some provider) result after := by
  obtain ⟨cell, hbefore, hinstalled⟩ := interleaved_call h
  have hthere := hbefore.trans (fills_trySet ring cell)
  obtain ⟨provider, hprovider⟩ := exists_of_trySet ring cell
  rw [performProvider, hprovider] at hinstalled
  rw [hprovider] at hthere
  cases hanswer : (trySet ring cell).1 with
  | ok installed =>
    rw [hanswer] at hinstalled
    exact ⟨provider, hthere, hinstalled⟩
  | error refused =>
    -- the install failed, and the provider it failed for is still there
    rw [hanswer] at hinstalled
    obtain ⟨found, hfound, hrest⟩ := interleaved_call hinstalled
    rw [eq_of_fills hfound] at hrest
    exact ⟨provider, hthere, hrest⟩

/-- **Concurrent connects** do not disturb each other's TLS.  Among any calls that install a
provider, here or elsewhere in the process, `build_tls_config` returns what it returns alone, so it
never fails for the provider; a provider that was there before stays; and one is there after it,
unless its task was lost. -/
theorem concurrent_tls_config {result : KafkaResult TlsConfig}
    (h : Interleaved Fills (performProvider ring) (buildTlsConfigCalls debug world caFile) before
      result after) :
    result = buildTlsConfig world.alone caFile ∧
      (∀ provider, before = some provider → after = some provider) ∧
      (world.joinError = none → ∃ provider, after = some provider) := by
  rw [buildTlsConfig_alone]
  rw [buildTlsConfigCalls] at h
  have hstays : ReflTransGen Fills before after →
      ∀ provider, before = some provider → after = some provider := by
    intro hrun provider hbefore
    rw [hbefore] at hrun
    exact eq_of_fills hrun
  cases hjoin : world.joinError with
  | some error =>
    rw [hjoin] at h
    obtain ⟨hresult, hrun⟩ := interleaved_ret h
    exact ⟨hresult, hstays hrun, fun hnone => by cases hnone⟩
  | none =>
    rw [hjoin] at h
    obtain ⟨provider, hbefore, hrest⟩ := ensureProvider_passes h
    obtain ⟨hresult, hrun⟩ := interleaved_ret hrest
    exact ⟨hresult, hstays (hbefore.trans hrun), fun _ => ⟨provider, eq_of_fills hrun⟩⟩

/-- A process without a certificate file. -/
def publicRoots : TlsWorld where
  installDefault := .ok ()
  hasDefault := true
  serverRoots := [[48]]
  metadata _ := .error []
  openFile _ := .error []
  certs _ := []
  add _ := .ok ()
  joinError := none

/-- Another part of the process installs its provider first; the call still succeeds. -/
theorem concurrent_tls_config_late : ∃ result,
    Interleaved Fills (performProvider "ring") (buildTlsConfigCalls String.toList publicRoots none)
      none result (some "aws-lc") ∧ result = .ok ⟨[[48]]⟩ := by
  have hrun : Interleaved Fills (performProvider "ring")
      (buildTlsConfigCalls String.toList publicRoots none) none (.ok ⟨[[48]]⟩) (some "aws-lc") :=
    .env (.fill "aws-lc") (.call (.call (.ret _ _)))
  exact ⟨_, hrun, (concurrent_tls_config hrun).1⟩

end Kafkax
