import N2nGo.Lib.Url

/-!
# Starting an edge

The command `edge up` merges the settings of the configuration file with its arguments and
completes the URL of the supernode with the community. `setupNetworkComponents` then cuts
the address of the supernode out of that URL. Settings that neither of them reads are left
out, and so is everything that opens a connection.
-/

set_option autoImplicit false

namespace N2nGo.EdgeUp

open N2nGo.Lib

/-- GOLINE: edge/config.go:14-39 -/
structure Config where
  community : Bytes
  supernodeURL : Bytes
  supernodeAddr : Bytes
  wsEnabled : Bool
  wssEnabled : Bool
  deriving DecidableEq

/-- The command line; a flag that is not set is `none`. -/
structure Args where
  positional : List Bytes
  community : Option Bytes
  supernode : Option Bytes
  ws : Option Bool
  wss : Option Bool

def defaultCommunity : Bytes := ascii "default"
def communityParam : Bytes := ascii "?community="

/-- GOLINE: cmd/edge/edge_up.go:152-161 -/
def withPositional (cfg : Config) (args : Args) : Config :=
  let posURL := args.positional.headD []
  if posURL ≠ [] then
    { cfg with
      supernodeURL := posURL
      community := if cfg.community = [] then defaultCommunity else cfg.community }
  else cfg

/-- GOLINE: cmd/edge/edge_up.go:163-168 -/
def withCommunity (cfg : Config) (args : Args) : Config :=
  match args.community with
  | some comm => if comm ≠ [] then { cfg with community := comm } else cfg
  | none => cfg

/-- GOLINE: cmd/edge/edge_up.go:181-183 -/
def withSupernode (cfg : Config) (args : Args) : Config :=
  match args.supernode with
  | some url => { cfg with supernodeURL := url }
  | none => cfg

/-- The community is written into the URL.
GOLINE: cmd/edge/edge_up.go:189-203 -/
def appendCommunity (cfg : Config) : Config :=
  if cfg.supernodeURL ≠ [] ∧ ¬ Url.contains cfg.supernodeURL communityParam then
    let community := if cfg.community = [] then defaultCommunity else cfg.community
    let separator : Bytes :=
      if Url.contains cfg.supernodeURL (ascii "?") then ascii "&" else ascii "?"
    { cfg with
      supernodeURL := cfg.supernodeURL ++ separator ++ ascii "community=" ++ community
      community := if cfg.community = [] then community else cfg.community }
  else cfg

def wsScheme : Bytes := ascii "ws://"
def wssScheme : Bytes := ascii "wss://"

/-- GOLINE: cmd/edge/edge_up.go:206-220 -/
def enableTransports (cfg : Config) (args : Args) : Config :=
  let cfg :=
    if cfg.supernodeURL ≠ [] then
      if wssScheme.isPrefixOf cfg.supernodeURL then { cfg with wssEnabled := true }
      else if wsScheme.isPrefixOf cfg.supernodeURL then { cfg with wsEnabled := true }
      else cfg
    else cfg
  { cfg with
    wsEnabled := args.ws.getD cfg.wsEnabled
    wssEnabled := args.wss.getD cfg.wssEnabled }

/-- The settings of the file and of the command line. -/
def merged (cfg : Config) (args : Args) : Config :=
  withSupernode (withCommunity (withPositional cfg args) args) args

/-- GOLINE: cmd/edge/edge_up.go:152-220 -/
def up (cfg : Config) (args : Args) : Config :=
  enableTransports (appendCommunity (merged cfg args)) args

/-- The address in a URL, with a port.
GOLINE: edge/setup.go:54-63, 113-122 -/
def hostOf (scheme port url : Bytes) : Bytes :=
  let host := if scheme.isPrefixOf url then url.drop scheme.length else url
  let host := Url.before 47 host
  if ¬ Url.contains host (ascii ":") then host ++ port else host

/-- What `setupNetworkComponents` passes to `net.ResolveUDPAddr`.
GOLINE: edge/setup.go:29-64, 83-123, 145 -/
def hostToResolve (cfg : Config) : Bytes :=
  if (cfg.wsEnabled ∨ wsScheme.isPrefixOf cfg.supernodeURL) ∧ cfg.supernodeURL ≠ [] then
    if cfg.supernodeAddr ≠ [] then cfg.supernodeAddr
    else hostOf wsScheme (ascii ":8080") cfg.supernodeURL
  else if (cfg.wssEnabled ∨ wssScheme.isPrefixOf cfg.supernodeURL) ∧ cfg.supernodeURL ≠ [] then
    if cfg.supernodeAddr ≠ [] then cfg.supernodeAddr
    else hostOf wssScheme (ascii ":443") cfg.supernodeURL
  else cfg.supernodeAddr

end N2nGo.EdgeUp
