import TeeReplication.Config
import TeeReplication.Foundations.Rendezvous

/-!
# Setting up connections

The socket calls of `connect_to_the_server`, `create_receiver_connection` and
`create_communication_pair`, which the programs make one after the other before they
start their threads. The machine that an address belongs to is a parameter.
-/

namespace TeeReplication.Net

variable {ν : Type}

/-- An address: a machine and a port. -/
abbrev Endpoint (ν : Type) := ν × ℕ

/-- `client_base_addr`. -/
def clientBaseAddr : ℕ := 30500

/-- `number_of_connect_attempts`. -/
def numberOfConnectAttempts : ℕ := 20

/-- `connect_to_the_server`: connect once, then listen for a connection back and accept it. -/
def connectToTheServer (port : ℕ) (hostname : ν) (serverId : ℕ) (myIp : ν) :
    List (SocketCall (Endpoint ν)) :=
  [.connect (hostname, port) 0, .listen (myIp, clientBaseAddr + serverId),
    .accept (myIp, clientBaseAddr + serverId)]

/-- `create_communication_pair`: connect back, in a number of attempts. -/
def createCommunicationPair (nodeId : ℕ) (dstIp : ν) : List (SocketCall (Endpoint ν)) :=
  [.connect (dstIp, clientBaseAddr + nodeId) (numberOfConnectAttempts - 1)]

/-- `create_receiver_connection`: listen, accept, and connect back to the given machine, if there is
one. -/
def createReceiverConnection (port : ℕ) (myIp : ν) (nodeId : ℕ) (dstIp : Option ν) :
    List (SocketCall (Endpoint ν)) :=
  [.listen (myIp, port), .accept (myIp, port)] ++
    dstIp.toList.flatMap (createCommunicationPair nodeId)

end TeeReplication.Net
