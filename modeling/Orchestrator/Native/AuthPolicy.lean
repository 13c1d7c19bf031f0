import Orchestrator.Native.HelperPolicy

/-!
# What passes while a trial's credentials are in use

`rpc_policy.py`, and the rest of what `_complete_auth_message` of `auth_wire.py` checks.
-/
namespace Orchestrator.Native
open Library PythonJson

def configWriteMethods : List String := ["config/value/write", "config/batchWrite"]

def sessionOverrideMethods : List String :=
  ["thread/start", "thread/resume", "thread/fork", "turn/start"]

def threadOverrideMethods : List String := ["thread/start", "thread/resume", "thread/fork"]

def fixedTuiConfigOverrideKeys : List String :=
  ["allow_login_shell", "bypass_hook_trust", "default_permissions", "features",
    "model_reasoning_effort", "model_reasoning_summary", "model_verbosity", "network",
    "permissions", "personality", "sandbox_workspace_write", "web_search"]

def clientBlockedAuth : List String :=
  ["account/login/start", "account/login/cancel", "account/logout", "account/bedrock/discover",
    "account/bedrock/setup", "getAuthStatus", "mcpServer/oauth/login"]

def clientKnownAccountNonauth : List String :=
  ["account/rateLimits/read", "account/rateLimitResetCredit/consume", "account/usage/read",
    "account/workspaceMessages/read", "account/sendAddCreditsNudgeEmail"]

def serverRefresh : String := "account/chatgptAuthTokens/refresh"

def serverKnownAccountOrAuthNotifications : List String :=
  ["account/updated", "account/rateLimits/updated", "account/login/completed",
    "modelProvider/authRecoveryStarted", "modelProvider/authRecoveryCompleted",
    "mcpServer/oauthLogin/completed"]

def isOneOf (names : List String) (s : Text) : Bool := names.any fun name => s = text name

/-! ## Names of methods -/

/-- `casefold` of a character as far as ASCII characters are in it. What other characters fold
to has none, so they may stay. -/
def casefoldChar (c : Nat) : Text :=
  if 0x41 ≤ c ∧ c ≤ 0x5A then [c + 0x20]
  else if c = 0xDF ∨ c = 0x1E9E then text "ss"
  else if c = 0x130 then [0x69, 0x307]
  else if c = 0x149 then [0x2BC, 0x6E]
  else if c = 0x17F then text "s"
  else if c = 0x1F0 then [0x6A, 0x30C]
  else if c = 0x1E96 then [0x68, 0x331]
  else if c = 0x1E97 then [0x74, 0x308]
  else if c = 0x1E98 then [0x77, 0x30A]
  else if c = 0x1E99 then [0x79, 0x30A]
  else if c = 0x1E9A then [0x61, 0x2BE]
  else if c = 0x212A then text "k"
  else if c = 0xFB00 then text "ff"
  else if c = 0xFB01 then text "fi"
  else if c = 0xFB02 then text "fl"
  else if c = 0xFB03 then text "ffi"
  else if c = 0xFB04 then text "ffl"
  else if c = 0xFB05 ∨ c = 0xFB06 then text "st"
  else [c]

def casefold (s : Text) : Text := s.flatMap casefoldChar

/-- `part in s`. -/
def occurs (part : String) (s : Text) : Bool := s.tails.any fun t => (text part).isPrefixOf t

/-- `_looks_like_unknown_auth_method`. -/
def looksLikeUnknownAuthMethod (method : Text) : Bool :=
  let folded := casefold method
  (text "account/").isPrefixOf folded || (text "auth/").isPrefixOf folded ||
    occurs "/auth/" folded || (text "/auth").isSuffixOf folded || occurs "oauth" folded ||
    occurs "authtoken" folded ||
    (occurs "account" folded && (occurs "login" folded || occurs "logout" folded))

/-! ## Policies -/

/-- `_enforce_account_read`. -/
def enforceAccountRead (fields : Fields) : Except String Unit :=
  match get? fields "params" with
  | none => .ok ()
  | some params => do
    let params ← asDict (some params) "account_read_params_invalid"
    require (keysWithin params ["refreshToken"] = true) "account_read_params_invalid"
    match get? params "refreshToken" with
    | none => .ok ()
    | some (.bool refresh) => require (refresh = false) "account_refresh_forbidden"
    | some _ => .error "account_refresh_flag_invalid"

/-- What is said of a method that no list decides. -/
def enforceUnknown (method : Text) : Except String Unit :=
  require (looksLikeUnknownAuthMethod method = false) "unknown_account_or_auth_rpc"

/-- `enforce_auth_rpc_policy`. -/
def enforceAuthRpcPolicy (d : Direction) (fields : Fields) : Except String Unit :=
  match get? fields "method" with
  | none => .ok ()
  | some method => do
    let method ← expect method.str? "rpc_method_invalid"
    require (method ≠ []) "rpc_method_invalid"
    match d with
    | .client =>
      if method = text "account/read" then enforceAccountRead fields
      else if isOneOf clientBlockedAuth method = true then .error "auth_rpc_forbidden"
      else if isOneOf clientKnownAccountNonauth method = true then .ok ()
      else enforceUnknown method
    | .server =>
      if method = text serverRefresh then .error "account_refresh_forbidden"
      else if isOneOf serverKnownAccountOrAuthNotifications method = true then .ok ()
      else enforceUnknown method

def isFalse : Value → Bool
  | .bool b => !b
  | _ => false

/-- `_fixed_tui_config_is_safe`. -/
def fixedTuiConfigIsSafe (method : Text) : Value → Bool
  | .null => true
  | .dict [] => true
  | .dict fields =>
    isOneOf threadOverrideMethods method && keysWithin fields fixedTuiConfigOverrideKeys &&
      ifPresent fields "allow_login_shell" isFalse &&
      ifPresent fields "features" fun
        | .dict features =>
          keysWithin features ["use_agent_identity"] &&
            ifPresent features "use_agent_identity" isFalse
        | _ => false
  | _ => false

/-- The parameters name a provider, or a configuration that is not the fixed one. -/
def isUnsafeOverride (method : Text) (params : Fields) : Bool :=
  !ifPresent params "modelProvider" isNull ||
    !ifPresent params "config" (fixedTuiConfigIsSafe method)

/-- `_enforce_trial_auth_overrides`. -/
def enforceTrialAuthOverrides (fields : Fields) : Except String Unit :=
  match get? fields "method" with
  | some (.str method) => do
    require (isOneOf configWriteMethods method = false) "trial_config_write_forbidden"
    if isOneOf sessionOverrideMethods method = true then match get? fields "params" with
      | some (.dict params) =>
        require (isUnsafeOverride method params = false) "trial_session_auth_override_forbidden"
      | _ => .ok ()
    else .ok ()
  | some (.list _) | some (.dict _) => .error "unhashable"
  | _ => .ok ()

/-- `_unique_json`. -/
def uniqueJson (depth : Nat) (payload : List UInt8) : Except String Fields := do
  asDict (some (← jsonUniqueOf (loadsBytes depth payload) "duplicate_json_key" "invalid_json"))
    "rpc_object_required"

/-- `_complete_auth_message`. -/
def authAccept (depth : Nat) (d : Direction) (_ : Unit) (payload : List UInt8) :
    Except String Unit := do
  let fields ← uniqueJson depth payload
  match d with
  | .server => enforceAuthRpcPolicy .server fields
  | .client => do
    enforceTrialAuthOverrides fields
    enforceAuthRpcPolicy .client fields

end Orchestrator.Native
