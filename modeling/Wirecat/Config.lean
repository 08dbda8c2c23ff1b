import Wirecat.System

/-!
# The configuration of a run

`include/cli.h`: the mode, the operands and the options of one command line. A
string that may be absent is an `Option`, `none` for `NULL`. Everything else in
the program takes this record and never changes it.
-/

namespace Wirecat

open CString

/-- `wcat_mode`. -/
inductive Mode
  | none | connect | listen | send | recv | relay | broker | proxy
  deriving DecidableEq

/-- `wcat_config`; the default values are those of `wcat_config_init`. -/
structure Config where
  mode : Mode := .none
  host : Option Bytes := none
  port : Option Bytes := none
  file : Option Bytes := none
  left : Option Bytes := none
  right : Option Bytes := none
  execPath : Option Bytes := none
  certFile : Option Bytes := none
  keyFile : Option Bytes := none
  caFile : Option Bytes := none
  sni : Option Bytes := none
  proxyUrl : Option Bytes := none
  alpn : Bytes := lit "wcat/1"
  clientCertFile : Option Bytes := none
  clientKeyFile : Option Bytes := none
  allowList : Option Bytes := none
  denyList : Option Bytes := none
  udp : Bool := false
  tls : Bool := false
  tlsVerify : Bool := true
  keepOpen : Bool := false
  multi : Bool := false
  verbose : Bool := false
  json : Bool := false
  hex : Bool := false
  pty : Bool := false
  chat : Bool := false
  unixSocket : Bool := false
  sctp : Bool := false
  vsock : Bool := false
  tlsRequireClientCert : Bool := false
  quic : Bool := false
  family : Family := .unspec
  timeoutMs : ℤ := -1
  brokerMaxClients : ℤ := 64
  brokerBufferBytes : ℤ := 65536
  deriving DecidableEq

/-- `wcat_config_init`. -/
def wcatConfigInit : Config := {}

namespace Config

variable (cfg : Config)

/-- `cfg->host` where the mode has one: every mode but the relay, which reads
neither this nor `cfg->port`. -/
def hostArg : Bytes := cfg.host.getD []

/-- `cfg->port` where the mode has one. -/
def portArg : Bytes := cfg.port.getD []

/-- `cfg->file` where the mode has one. -/
def fileArg : Bytes := cfg.file.getD []

/-- `cfg->sni != NULL ? cfg->sni : cfg->host`. -/
def serverName : Bytes := cfg.sni.getD cfg.hostArg

end Config

end Wirecat
