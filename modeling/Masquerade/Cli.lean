/-
  Masquerade.Cli — THE COMMAND LINES of the two programs.

  A run is a function of its arguments and of what surrounds it: the files,
  the time of day and the random draws.  The first argument selects what is
  done; without one the usage is shown.
-/
import Masquerade.Address
import Masquerade.Files

namespace Masquerade

namespace Cli

/-! ## §1. Runs -/

/-- The two programs. -/
inductive Program where
  | server | client
  deriving DecidableEq, Repr

/-- What a run can see of the world. -/
structure Surroundings where
  /-- The text of a file, if it can be read. -/
  file? : String → Option String
  /-- The time of day, as text. -/
  now : String
  draws : Draws

/-- What a run leaves behind: its code and the lines on its two outputs. -/
structure Outcome where
  code : Nat
  out : List String
  err : List String
  deriving DecidableEq, Repr

/-- A run that went well. -/
def done (out : List String) : Outcome := ⟨0, out, []⟩

/-- A run that ended with an error. -/
def failed (reason : String) : Outcome := ⟨1, [], ["Error: " ++ reason]⟩

/-- A run that was given no file; it counts as a success. -/
def needsFile (option what : String) : Outcome :=
  ⟨0, [], ["Error: " ++ option ++ " requires a " ++ what]⟩

/-- The reason for an unreadable file. -/
def unreadable : String := "No such file or directory (os error 2)"

/-! ## §2. Usage -/

/-- How the server is used. -/
def serverUsage : List String :=
  ["Replicant Server - obfuscating forwarding server",
   "",
   "USAGE:",
   "    replicant-server [OPTIONS]",
   "",
   "OPTIONS:",
   "    -c, --config <FILE>          Path to configuration file",
   "    -g, --generate [FORWARD]     Generate new server configuration",
   "    --show-client <FILE>         Print the client config for an existing server config",
   "    -h, --help                   Print help information",
   "",
   "EXAMPLES:",
   "    Generate a new configuration:",
   "        replicant-server --generate 127.0.0.1:8080 > server.toml",
   "",
   "    Run the server:",
   "        replicant-server --config server.toml",
   ""]

/-- How the client is used. -/
def clientUsage : List String :=
  ["Replicant Client - local tunnel over a Replicant connection",
   "",
   "USAGE:",
   "    replicant-client [OPTIONS]",
   "",
   "OPTIONS:",
   "    -c, --config <FILE>  Path to configuration file",
   "    -t, --test <FILE>    Test connection using config file",
   "    -h, --help           Print help information",
   "",
   "CONFIGURATION FILE FORMAT (JSON):",
   "    \x7b",
   "        \"listen_addr\": \"127.0.0.1:1080\",",
   "        \"server_addr\": \"server.example.com:2277\",",
   "        \"replicant\": \"<encoded client config from replicant-server --generate>\"",
   "    \x7d",
   "",
   "EXAMPLES:",
   "    Test connection:",
   "        replicant-client --test client.json",
   "",
   "    Run the tunnel:",
   "        replicant-client --config client.json",
   ""]

/-- How a program is used. -/
def Program.usage : Program → List String
  | .server => serverUsage
  | .client => clientUsage

/-- A run with an option that the program does not have. -/
def unknown (program : Program) (option : String) : Outcome :=
  ⟨0, program.usage, ["Unknown option: " ++ option]⟩

/-! ## §3. The server -/

/-- The first eight bytes of the hash of a server's public key, to tell
    configurations apart by eye. -/
def fingerprint (config : SilverServer) : String :=
  Bytes.hex ((Sha256.digest config.serverKey.encode).take 8)

/-- What a client needs to know of a server. -/
def clientInfo (config : ServerConfig) : List String :=
  ["# Client connection info (put this in client.json as \"replicant\"):",
   "# " ++ (config.client none).encode]
    ++ (config.polish.map fun silver =>
          "# Server key fingerprint: " ++ fingerprint silver).toList

/-- Where a generated server listens. -/
def generatedAddr : String := "0.0.0.0"

/-- The port on which a generated server listens. -/
def generatedPort : UInt16 := 2277

/-- Where a generated server forwards to, unless told otherwise. -/
def generatedForward : String := "127.0.0.1:8080"

/-- Write a new server's file, with what its clients need to know. -/
def generate (world : Surroundings) (forwardAddr : String) : Outcome :=
  let (config, _) := TunnelServer.generate generatedAddr generatedPort forwardAddr world.draws
  done (["# Replicant Server Configuration", "# Generated: " ++ world.now, ""]
    ++ (ServerFile.ofConfig config).print.splitOn "\n" ++ [""] ++ clientInfo config.connection)

/-- Go on with the configuration in a server's file. -/
def withServer (world : Surroundings) (path : String) (next : TunnelServer → Outcome) : Outcome :=
  match world.file? path with
  | none => failed unreadable
  | some document =>
    match ServerFile.read? document with
    | none => failed "TOML parse error"
    | some file =>
      match file.config with
      | .error e => failed e.message
      | .ok config => next config

/-- Show what the clients of a server need to know. -/
def showClient (config : TunnelServer) : Outcome := done (clientInfo config.connection)

/-- Check a server's configuration; this library opens no sockets itself. -/
def serve (world : Surroundings) (config : TunnelServer) : Outcome :=
  match config.validate world.draws with
  | .error e => failed e.message
  | .ok () => failed (StreamFault.told "no sockets to listen on").message

/-- A run of the server. -/
def runServer (world : Surroundings) : List String → Outcome
  | [] => done serverUsage
  | option :: rest =>
    if option = "-h" ∨ option = "--help" then done serverUsage
    else if option = "-g" ∨ option = "--generate" then
      generate world (rest.head?.getD generatedForward)
    else if option = "-c" ∨ option = "--config" then
      match rest with
      | path :: _ => withServer world path (serve world)
      | [] => needsFile "--config" "file path"
    else if option = "--show-client" then
      match rest with
      | path :: _ => withServer world path showClient
      | [] => needsFile "--show-client" "config file path"
    else unknown .server option

/-! ## §4. The client -/

/-- Go on with the configuration in a client's file, once it is checked. -/
def withClient (world : Surroundings) (path : String) (next : TunnelClient → Outcome) : Outcome :=
  match world.file? path with
  | none => failed unreadable
  | some document =>
    match ClientFile.read? document with
    | none => failed "malformed client file"
    | some file =>
      match file.config with
      | .error e => failed e.message
      | .ok config =>
        match config.validate world.draws with
        | .error e => failed e.message
        | .ok () => next config

/-- Check whether the server can be dialled.  A failure to connect is only
    logged. -/
def test (_config : TunnelClient) : Outcome := done []

/-- Check what a client would listen on; this library opens no sockets
    itself. -/
def tunnel (world : Surroundings) (config : TunnelClient) : Outcome :=
  match config.checkRun world.draws with
  | .error e => failed e.message
  | .ok () => failed (StreamFault.told "no sockets to listen on").message

/-- A run of the client. -/
def runClient (world : Surroundings) : List String → Outcome
  | [] => done clientUsage
  | option :: rest =>
    if option = "-h" ∨ option = "--help" then done clientUsage
    else if option = "-t" ∨ option = "--test" then
      match rest with
      | path :: _ => withClient world path test
      | [] => needsFile "--test" "config file path"
    else if option = "-c" ∨ option = "--config" then
      match rest with
      | path :: _ => withClient world path (tunnel world)
      | [] => needsFile "--config" "file path"
    else unknown .client option

/-- **A run of either program** with its arguments. -/
def run (world : Surroundings) : Program → List String → Outcome
  | .server => runServer world
  | .client => runClient world

end Cli

end Masquerade
